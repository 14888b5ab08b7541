/-
Reading a file that was just written.

Writing walks the path to the place that is to hold the file, which is a file already or a free name
in a folder.  Putting a file there leaves all folders folders and makes none of that place, so that
the same walk leads to the same place afterwards, where the new contents are.
-/
import AdaptiveMtu.Storage.Directory
import Mathlib.Tactic.SplitIfs

namespace AdaptiveMtu

/-- A text comes back from its own bytes. -/
theorem decodeText_toUTF8 (text : String) : decodeText text.toUTF8 = .ok text := by
  have hvalid : text.toUTF8.IsValidUTF8 := text.isValidUTF8
  rw [decodeText, String.fromUTF8?, dif_pos hvalid]
  rfl

/-- Bytes are read as a text exactly if they are its own bytes. -/
theorem decodeText_eq_ok_iff {bytes : ByteArray} {text : String} :
    decodeText bytes = .ok text ↔ bytes = text.toUTF8 := by
  constructor
  · intro h
    by_cases hvalid : bytes.IsValidUTF8
    · rw [decodeText, String.fromUTF8?, dif_pos hvalid] at h
      rw [← Except.ok.inj h]
      rfl
    · rw [decodeText, String.fromUTF8?, dif_neg hvalid] at h
      cases h
  · rintro rfl
    exact decodeText_toUTF8 text

/-- Bytes that are those of no text are refused as such. -/
theorem decodeText_eq_error_iff {bytes : ByteArray} {fault : FileFault} :
    decodeText bytes = .error fault ↔ fault = .notText ∧ ∀ text : String, bytes ≠ text.toUTF8 := by
  constructor
  · intro h
    refine ⟨?_, fun text hbytes => ?_⟩
    · unfold decodeText at h
      split at h
      · cases h
      · exact (Except.error.inj h).symm
    · rw [decodeText_eq_ok_iff.mpr hbytes] at h
      cases h
  · rintro ⟨rfl, hnone⟩
    cases hdecoded : decodeText bytes with
    | ok text => exact absurd (decodeText_eq_ok_iff.mp hdecoded) (hnone text)
    | error fault =>
        unfold decodeText at hdecoded
        split at hdecoded
        · cases hdecoded
        · exact hdecoded.symm

/-- The reader of files of which the bytes are known. -/
def TextReader.ofBytes (bytes : String → Except FileFault ByteArray) : TextReader :=
  fun path => (bytes path).bind decodeText

namespace Directory

variable {d : Directory} {path : List String} {contents : ByteArray}

/-! ### Places -/

/-- A place that can be walked on from. -/
def Place.isOpen : Place → Bool
  | .folder _ | .outside => true
  | .file _ | .vacant _ => false

/-- Where a file can be put. -/
def Place.target? : Place → Option (List String)
  | .file path | .vacant path => some path
  | .folder _ | .outside => none

theorem isFolder_put {folder : List String} (h : d.isFolder folder = true) :
    (d.put path contents).isFolder folder = true := by
  unfold isFolder at h ⊢
  rw [Bool.or_eq_true, List.any_eq_true] at h ⊢
  refine h.imp id ?_
  rintro ⟨f, hf, hbelow⟩
  by_cases hpath : f.1 = path
  · exact ⟨(path, contents), List.mem_cons_self, hpath ▸ hbelow⟩
  · refine ⟨f, List.mem_cons_of_mem _ (List.mem_filter.mpr ⟨hf, ?_⟩), hbelow⟩
    simpa using hpath

/-- A file does not make a folder of its own place. -/
theorem isFolder_put_self (h : d.isFolder path = false) :
    (d.put path contents).isFolder path = false := by
  unfold isFolder at h ⊢
  rw [Bool.or_eq_false_iff, List.any_eq_false] at h ⊢
  refine ⟨h.1, fun f hf => ?_⟩
  rcases List.mem_cons.mp hf with rfl | hf
  · simp
  · exact h.2 f (List.mem_filter.mp hf).1

theorem lookup?_put (d : Directory) (path : List String) (contents : ByteArray) :
    (d.put path contents).lookup? path = some contents := by
  rw [lookup?, put, List.lookup_cons_self]

theorem placeOf_put {place : List String} (h : (d.placeOf place).isOpen = true) :
    (d.put path contents).placeOf place = d.placeOf place := by
  unfold placeOf at h ⊢
  split_ifs at h with hfolder
  · rw [if_pos (isFolder_put hfolder), if_pos hfolder]
  · cases h
  · cases h

theorem placeOf_put_self {place : List String} (h : (d.placeOf place).target? = some path) :
    (d.put path contents).placeOf place = .file path := by
  have hplace : d.isFolder place = false ∧ place = path := by
    unfold placeOf at h
    split_ifs at h with hfolder
    · cases h
    · exact ⟨Bool.eq_false_iff.mpr hfolder, Option.some.inj h⟩
    · exact ⟨Bool.eq_false_iff.mpr hfolder, Option.some.inj h⟩
  obtain ⟨hfolder, rfl⟩ := hplace
  rw [placeOf, isFolder_put_self hfolder, lookup?_put]
  rfl

/-! ### Walks -/

theorem walkStep_outside (d : Directory) (name : String) :
    d.walkStep .outside name =
      if name = "" || name = "." || name = ".." then .ok .outside else .error .notFound := rfl

theorem walkStep_folder (d : Directory) (folder : List String) (name : String) :
    d.walkStep (.folder folder) name =
      if name = "" || name = "." then .ok (.folder folder)
      else if name = ".." then .ok (if folder.isEmpty then .outside else .folder folder.dropLast)
      else if 255 < name.utf8ByteSize then .error .nameTooLong
      else .ok (d.placeOf (folder ++ [name])) := rfl

/-- A step of a walk is the same after a file was put somewhere, but that it now finds that file. -/
theorem walkStep_put {place next : Place} {name : String} (h : d.walkStep place name = .ok next) :
    (next.isOpen = true → (d.put path contents).walkStep place name = .ok next) ∧
      (next.target? = some path → (d.put path contents).walkStep place name = .ok (.file path)) := by
  cases place with
  | file _ | vacant _ => cases h
  | outside =>
      rw [walkStep_outside] at h ⊢
      refine ⟨fun _ => h, fun htarget => ?_⟩
      split_ifs at h
      cases h
      cases htarget
  | folder folder =>
      rw [walkStep_folder] at h ⊢
      split_ifs at h ⊢ with hstay hup hlong hempty
      · refine ⟨fun _ => h, fun htarget => ?_⟩
        cases h
        cases htarget
      · refine ⟨fun _ => h, fun htarget => ?_⟩
        cases h
        cases htarget
      · refine ⟨fun _ => h, fun htarget => ?_⟩
        cases h
        cases htarget
      · cases h
        exact ⟨fun hopen => congrArg Except.ok (placeOf_put hopen),
          fun htarget => congrArg Except.ok (placeOf_put_self htarget)⟩

theorem walkStep_closed {place : Place} (h : place.isOpen = false) (d : Directory) (name : String) :
    ∀ next, d.walkStep place name ≠ .ok next := by
  intro next hnext
  cases place with
  | file _ | vacant _ => cases hnext
  | folder _ | outside => cases h

/-- **A walk that leads to where a file is put leads to that file afterwards.** -/
theorem foldlM_walkStep_put {steps : List String} {place found : Place} (hplace : place.isOpen = true)
    (h : steps.foldlM d.walkStep place = .ok found) (hfound : found.target? = some path) :
    steps.foldlM (d.put path contents).walkStep place = .ok (.file path) := by
  induction steps generalizing place with
  | nil =>
      cases h
      cases found with
      | folder _ | outside => cases hfound
      | file _ | vacant _ => cases hplace
  | cons name rest ih =>
      rw [List.foldlM_cons] at h ⊢
      cases hstep : d.walkStep place name with
      | error fault =>
          rw [hstep] at h
          cases h
      | ok next =>
          rw [hstep] at h
          obtain ⟨hsame, htarget⟩ :
              (next.isOpen = true → (d.put path contents).walkStep place name = .ok next) ∧
                (next.target? = some path →
                  (d.put path contents).walkStep place name = .ok (.file path)) := walkStep_put hstep
          cases hnext : next.isOpen with
          | true =>
              rw [hsame hnext]
              exact ih hnext h
          | false =>
              -- No walk goes on behind a file or a free name, so this was its last step.
              cases rest with
              | nil =>
                  cases h
                  rw [htarget hfound]
                  rfl
              | cons other rest =>
                  rw [show (Except.ok next >>= fun p => (other :: rest).foldlM d.walkStep p)
                    = (other :: rest).foldlM d.walkStep next from rfl, List.foldlM_cons] at h
                  cases hother : d.walkStep next other with
                  | error fault =>
                      rw [hother] at h
                      cases h
                  | ok _ => exact absurd hother (walkStep_closed hnext d other _)

/-- A walk that ends by staying where it is leads to no file. -/
theorem foldlM_walkStep_stay {before : List String} {place found : Place}
    (h : (before ++ ["."]).foldlM d.walkStep place = .ok found) : found.target? = none := by
  rw [List.foldlM_append] at h
  cases hbefore : before.foldlM d.walkStep place with
  | error fault =>
      rw [hbefore] at h
      cases h
  | ok last =>
      rw [hbefore] at h
      cases last with
      | file _ | vacant _ => cases h
      | folder folder =>
          cases h
          rfl
      | outside =>
          cases h
          rfl

/-! ### Writing and reading -/

theorem namesToWrite_cases (path : String) :
    namesToWrite path = names path ∨ ∃ before, namesToWrite path = before ++ ["."] := by
  unfold namesToWrite
  split
  · exact .inr ⟨_, List.reverse_cons⟩
  · exact .inl rfl

/-- A path by which something was found can be walked in every directory, from the same place on. -/
theorem walk_ok {path : String} {steps : List String} {found : Place}
    (h : d.walk path steps = .ok found) :
    ∃ start : Place, start.isOpen = true ∧
      ∀ (d : Directory) steps, d.walk path steps = steps.foldlM d.walkStep start := by
  refine ⟨if path.toList.head? = some '/' then .outside else .folder [], ?_, fun d steps => ?_⟩
  · split <;> rfl
  · unfold walk at h ⊢
    by_cases hempty : path = ""
    · rw [if_pos hempty] at h
      cases h
    · by_cases hzero : path.toList.contains '\x00' = true
      · rw [if_neg hempty, if_pos hzero] at h
        cases h
      · by_cases hlong : 4096 ≤ path.utf8ByteSize
        · rw [if_neg hempty, if_neg hzero, if_pos hlong] at h
          cases h
        · rw [if_neg hempty, if_neg hzero, if_neg hlong]

/-- **A file that was written is read.** -/
theorem read_write {path : String} {d' : Directory} (h : d.write path contents = .ok d') :
    d'.read path = .ok contents := by
  unfold write at h
  cases hwalk : d.walk path (namesToWrite path) with
  | error fault =>
      rw [hwalk] at h
      cases h
  | ok found =>
      rw [hwalk] at h
      obtain ⟨target, htarget, rfl⟩ : ∃ target, found.target? = some target ∧
          d' = d.put target contents := by
        cases found with
        | folder _ | outside => cases h
        | file target | vacant target => exact ⟨target, rfl, (Except.ok.inj h).symm⟩
      obtain ⟨start, hopen, hstart⟩ := walk_ok hwalk
      rw [hstart] at hwalk
      obtain hnames | ⟨before, hbefore⟩ := namesToWrite_cases path
      · rw [hnames] at hwalk
        have hresolve : (d.put target contents).resolve path = .ok (.file target) := by
          rw [resolve, hstart]
          exact foldlM_walkStep_put hopen hwalk htarget
        rw [read, hresolve]
        show ((d.put target contents).lookup? target).elim _ _ = _
        rw [lookup?_put]
        rfl
      · -- A path that ends in a slash leads to a folder or nowhere.
        rw [hbefore] at hwalk
        rw [foldlM_walkStep_stay hwalk] at htarget
        cases htarget

theorem readText_write {path text : String} {d' : Directory}
    (h : d.write path text.toUTF8 = .ok d') : d'.readText path = .ok text := by
  rw [readText, read_write h]
  exact decodeText_toUTF8 text

end Directory

end AdaptiveMtu
