/-!
# Entries by name

A list of entries in which every name has at most one.
-/

namespace Workload

/-- Entries by their names. -/
abbrev Named (α : Type) := List (String × α)

namespace Named

variable {α : Type}

/-- Puts an entry in the place of the one of that name, or adds it. -/
def put (entries : Named α) (name : String) (a : α) : Named α :=
  match entries with
  | [] => [(name, a)]
  | e :: es => if e.1 = name then (name, a) :: es else e :: put es name a

def get? (entries : Named α) (name : String) : Option α :=
  match entries with
  | [] => none
  | e :: es => if e.1 = name then some e.2 else get? es name

theorem get?_put_self (entries : Named α) (name : String) (a : α) :
    (entries.put name a).get? name = some a := by
  induction entries with
  | nil => simp [put, get?]
  | cons e es ih =>
    by_cases h : e.1 = name
    · simp [put, get?, h]
    · simp [put, get?, h, ih]

theorem get?_put_of_ne (entries : Named α) {name other : String} (h : other ≠ name) (a : α) :
    (entries.put name a).get? other = entries.get? other := by
  induction entries with
  | nil => simp [put, get?, h.symm]
  | cons e es ih =>
    by_cases he : e.1 = name
    · simp [put, get?, he, h.symm]
    · simp [put, get?, he, ih]

/-- Of entries that are put one after the other the last one of a name stays. -/
theorem get?_foldl_put (entries es : Named α) (name : String) :
    (es.foldl (fun entries e => entries.put e.1 e.2) entries).get? name =
      ((es.reverse.find? fun e => e.1 = name).map Prod.snd).or (entries.get? name) := by
  induction es generalizing entries with
  | nil => rfl
  | cons e es ih =>
    rw [List.foldl_cons, ih, List.reverse_cons, List.find?_append]
    by_cases h : e.1 = name
    · subst h
      rw [get?_put_self]
      cases es.reverse.find? fun f => f.1 = e.1 <;> simp
    · rw [get?_put_of_ne _ (Ne.symm h)]
      cases es.reverse.find? fun f => f.1 = name <;> simp [h]

end Named

end Workload
