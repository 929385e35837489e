import TreePlan.Double.Basic
import TreePlan.Text.Basic

/-!
Values of any kind: what extras, settings, records and traces hold. A map keeps its keys in the
order in which they first came and has each key once.
-/

namespace TreePlan

inductive Value where
  | null
  | bool (b : Bool)
  | int (n : Int)
  | float (x : Double)
  | text (t : Text)
  | bytes (b : Bytes)
  | moment (t : Text)
  | list (items : List Value)
  | tuple (items : List Value)
  | map (fields : List (Text × Value))

abbrev Fields := List (Text × Value)

namespace Fields

def get? (fields : Fields) (key : Text) : Option Value := List.lookup key fields

/-- A key that is already there keeps its place and takes the new value. -/
def insert (fields : Fields) (key : Text) (value : Value) : Fields :=
  match fields with
  | [] => [(key, value)]
  | (k, v) :: r => if k = key then (key, value) :: r else (k, v) :: insert r key value

def ofList (pairs : List (Text × Value)) : Fields :=
  pairs.foldl (fun fields p => insert fields p.1 p.2) []

/-- A field that may be left out. -/
def optional (key : Text) : Option Value → Fields
  | none => []
  | some v => [(key, v)]

def keys (fields : Fields) : List Text := fields.map Prod.fst

def erase (fields : Fields) (key : Text) : Fields := fields.filter fun p => p.1 ≠ key

theorem get?_cons (k : Text) (v : Value) (fields : Fields) (key : Text) :
    get? ((k, v) :: fields) key = if key = k then some v else get? fields key := by
  rw [get?, List.lookup_cons]
  by_cases h : key = k
  · simp [h]
  · have : (key == k) = false := by simpa using h
    rw [this, if_neg h]
    rfl

theorem get?_insert (fields : Fields) (k : Text) (v : Value) (key : Text) :
    (fields.insert k v).get? key = if key = k then some v else fields.get? key := by
  induction fields with
  | nil => exact get?_cons k v [] key
  | cons p r ih =>
    obtain ⟨k', v'⟩ := p
    by_cases h : k' = k
    · subst h
      rw [insert, if_pos rfl, get?_cons, get?_cons]
      split <;> rfl
    · rw [insert, if_neg h, get?_cons, get?_cons, ih]
      by_cases hk : key = k'
      · subst hk
        simp [h]
      · simp [hk]

theorem get?_erase (fields : Fields) (k key : Text) :
    (fields.erase k).get? key = if key = k then none else fields.get? key := by
  induction fields with
  | nil => simp [erase, get?]
  | cons p r ih =>
    obtain ⟨k', v'⟩ := p
    by_cases h : k' = k
    · subst h
      have : erase ((k', v') :: r) k' = erase r k' := by simp [erase]
      rw [this, ih, get?_cons]
      by_cases hk : key = k' <;> simp [hk]
    · have : erase ((k', v') :: r) k = (k', v') :: erase r k := by simp [erase, h]
      rw [this, get?_cons, ih, get?_cons]
      by_cases hk : key = k'
      · subst hk
        simp [h]
      · simp [hk]

end Fields

namespace Value

def fields? : Value → Option Fields
  | .map fields => some fields
  | _ => none

def ofOption {α : Type} (f : α → Value) : Option α → Value
  | none => .null
  | some a => f a

def ofTexts (ts : List Text) : Value := .list (ts.map .text)

def ofNat (n : Nat) : Value := .int n

end Value

end TreePlan
