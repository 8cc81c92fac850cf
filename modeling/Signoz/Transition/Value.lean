import Mathlib.Data.List.Basic

/-!
# Values of any type

The `any` of decoded JSON: `null`, booleans, numbers, strings, `[]any` and `map[string]any`. `F` is
the type of `float64`. A map is a list of entries; a key that is set again keeps its place, so maps
with the same entries are equal as long as nothing is moved.

A map of the source is changed in place. Here a function returns the map as it leaves it.
-/

namespace Signoz.Transition

inductive Any (F : Type) where
  | null
  | bool (b : Bool)
  | number (x : F)
  | int (n : Int)
  | string (s : String)
  | list (l : List (Any F))
  | map (m : List (String × Any F))

/-- `map[string]any`. -/
abbrev Obj (F : Type) := List (String × Any F)

variable {F : Type}

namespace Any

/-- `v.(string)`. -/
def string? : Any F → Option String
  | .string s => some s
  | _ => none

/-- `v.([]any)`. -/
def list? : Any F → Option (List (Any F))
  | .list l => some l
  | _ => none

/-- `v.(map[string]any)`. -/
def map? : Any F → Option (Obj F)
  | .map m => some m
  | _ => none

end Any

namespace Obj

/-- `v, ok := m[key]`. -/
def get (m : Obj F) (key : String) : Option (Any F) :=
  (m.find? fun e => e.1 = key).map Prod.snd

/-- `m[key]`, which is `nil` when there is none. -/
def getAny (m : Obj F) (key : String) : Any F := (m.get key).getD .null

def string? (m : Obj F) (key : String) : Option String := (m.getAny key).string?

def list? (m : Obj F) (key : String) : Option (List (Any F)) := (m.getAny key).list?

def map? (m : Obj F) (key : String) : Option (Obj F) := (m.getAny key).map?

/-- `s, _ := m[key].(string)`. -/
def stringD (m : Obj F) (key : String) : String := (m.string? key).getD ""

/-- `m[key] = v`. -/
def set (m : Obj F) (key : String) (v : Any F) : Obj F :=
  if m.any fun e => e.1 = key then m.map fun e => if e.1 = key then (key, v) else e
  else m ++ [(key, v)]

/-- `delete(m, key)`. -/
def delete (m : Obj F) (key : String) : Obj F := m.filter fun e => e.1 ≠ key

theorem get_set_self (m : Obj F) (key : String) (v : Any F) : (m.set key v).get key = some v := by
  unfold set get
  split
  · rename_i hany
    induction m with
    | nil => simp at hany
    | cons e m ih =>
      by_cases he : e.1 = key
      · simp [he]
      · simp only [List.any_cons, he, decide_false, Bool.false_or] at hany
        simpa [he] using ih hany
  · rename_i hany
    have hnone : m.find? (fun e => e.1 = key) = none := by
      rw [List.find?_eq_none]
      intro e he heq
      exact hany (List.any_eq_true.2 ⟨e, he, heq⟩)
    simp [List.find?_append, hnone]

theorem get_set_of_ne {key key' : String} (m : Obj F) (v : Any F) (h : key' ≠ key) :
    (m.set key v).get key' = m.get key' := by
  unfold set get
  split
  · rename_i hany
    clear hany
    induction m with
    | nil => rfl
    | cons e m ih =>
      by_cases he : e.1 = key
      · have he' : e.1 ≠ key' := fun heq => h (heq.symm.trans he)
        simpa [he, h.symm, he'] using ih
      · by_cases he' : e.1 = key'
        · simp [he', h]
        · simpa [he, he'] using ih
  · rw [List.find?_append]
    simp [h.symm]

theorem get_delete_self (m : Obj F) (key : String) : (m.delete key).get key = none := by
  have hnone : (m.delete key).find? (fun e => e.1 = key) = none := by
    rw [List.find?_eq_none]
    intro e he
    simpa using (List.mem_filter.1 he).2
  rw [get, hnone]
  rfl

theorem get_delete_of_ne {key key' : String} (m : Obj F) (h : key' ≠ key) :
    (m.delete key).get key' = m.get key' := by
  unfold delete get
  rw [List.find?_filter]
  congr 2
  funext e
  by_cases he : e.1 = key'
  · simp [he, h]
  · simp [he]

theorem get_delete_none {key key' : String} {m : Obj F} (h : m.get key = none) :
    (m.delete key').get key = none := by
  by_cases heq : key = key'
  · rw [heq]
    exact get_delete_self m key'
  · rw [get_delete_of_ne m heq]
    exact h

theorem getAny_set_of_ne {key key' : String} (m : Obj F) (v : Any F) (h : key' ≠ key) :
    (m.set key v).getAny key' = m.getAny key' := by
  rw [getAny, get_set_of_ne m v h, getAny]

theorem getAny_set_self (m : Obj F) (key : String) (v : Any F) :
    (m.set key v).getAny key = v := by
  rw [getAny, get_set_self]
  rfl

theorem getAny_delete_of_ne {key key' : String} (m : Obj F) (h : key' ≠ key) :
    (m.delete key).getAny key' = m.getAny key' := by
  rw [getAny, get_delete_of_ne m h, getAny]

end Obj

end Signoz.Transition
