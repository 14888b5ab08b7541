/-
A model that plays back a script: for rehearsing an engine against any sequence of answers.

Each prediction takes the next entry of the script, and the last entry repeats for ever; learning
has a script of its own. The raw prediction is the one of the entry that was played last.
-/
import AdaptiveMtu.Model.Tree

namespace AdaptiveMtu

/-- One answer of a scripted model. -/
inductive ScriptedAnswer where
  | mtu (value : Nat) (raw : Option Float)
  | failure (text : String)

/-- A script and how far it has been played. -/
structure Scripted where
  answers : List ScriptedAnswer
  /-- What learning reports, call by call; nothing means success. -/
  reports : List (Option String)
  degraded : Bool
  asked : Nat
  told : Nat

namespace Scripted

/-- A script from its beginning. -/
def ofScript (answers : List ScriptedAnswer) (reports : List (Option String)) (degraded : Bool) :
    Scripted :=
  ⟨answers, reports, degraded, 0, 0⟩

/-- Entry number `i` of a script whose last entry repeats. -/
def playing? {α : Type} (script : List α) (i : Nat) : Option α := script[min i (script.length - 1)]?

/-- The next answer. -/
def predict (s : Scripted) (_ : FeatureVector) : Except Error Nat × Scripted :=
  let answer : Except Error Nat := match playing? s.answers s.asked with
    | some (.mtu value _) => .ok value
    | some (.failure text) => .error (.prediction (.reported text))
    | none => .error (.prediction (.reported "script is empty"))
  (answer, { s with asked := s.asked + 1 })

/-- The raw prediction of the entry that was played last. -/
def raw (s : Scripted) (_ : FeatureVector) : Option Float × Scripted :=
  let value := match s.asked with
    | 0 => none
    | played + 1 =>
      match playing? s.answers played with
      | some (.mtu _ raw) => raw
      | _ => none
  (value, s)

/-- The next report. -/
def update (s : Scripted) (_ : FeatureVector) (_ : Nat) : Except Error Unit × Scripted :=
  let report : Except Error Unit := match (playing? s.reports s.told).join with
    | some text => .error (.prediction (.reported text))
    | none => .ok ()
  (report, { s with told := s.told + 1 })

instance : Predictor Scripted where
  predict := predict
  raw := raw
  update := update
  typeName _ := "Scripted"
  isDegraded s := s.degraded

end Scripted

end AdaptiveMtu
