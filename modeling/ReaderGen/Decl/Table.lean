import ReaderGen.Decl

/-!
# Tables of declarations

A table holds the declarations of the variables of a format, in the order in which they were put in,
each name once.

* `Table.insert`: puts a declaration at the end, unless its name is taken.
* `names_insert`, `mem_of_get?`, `get?_isSome_iff`: tables as seen through names and look-up.
-/

namespace ReaderGen

structure Table where
  decls : List Decl
  nodup : (decls.map (·.name)).Nodup
deriving DecidableEq

namespace Table

def empty : Table := ⟨[], List.nodup_nil⟩

instance : Inhabited Table := ⟨empty⟩

def names (t : Table) : List String := t.decls.map (·.name)

def size (t : Table) : Nat := t.decls.length

def isEmpty (t : Table) : Bool := t.decls.isEmpty

def get? (t : Table) (name : String) : Option Decl := t.decls.find? (·.name = name)

def contains (t : Table) (name : String) : Bool := decide (name ∈ t.names)

/-- Puts a declaration of a new name at the end. -/
def push (t : Table) (d : Decl) (fresh : d.name ∉ t.names) : Table where
  decls := t.decls ++ [d]
  nodup := by
    rw [List.map_append, List.nodup_append]
    refine ⟨t.nodup, by simp, fun a ha b hb => ?_⟩
    simp only [List.map_cons, List.map_nil, List.mem_singleton] at hb
    exact fun hab => fresh (by rw [← hb, ← hab]; exact ha)

def insert (t : Table) (d : Decl) : Except FormatError Table :=
  if h : d.name ∈ t.names then .error (.duplicateDecl d.name) else .ok (t.push d h)

/-- The table of a list of declarations, put in one after the other. -/
def ofList (decls : List Decl) : Except FormatError Table := decls.foldlM insert empty

/-! ## Names and look-up -/

@[simp] theorem names_push {t : Table} {d : Decl} {h : d.name ∉ t.names} :
    (t.push d h).names = t.names ++ [d.name] := by simp [push, names]

theorem names_insert {t u : Table} {d : Decl} (h : t.insert d = .ok u) :
    u.names = t.names ++ [d.name] := by
  unfold insert at h
  split at h
  · cases h
  · cases h
    exact names_push

theorem mem_of_get? {t : Table} {name : String} {d : Decl} (h : t.get? name = some d) :
    d ∈ t.decls ∧ d.name = name :=
  ⟨List.mem_of_find?_eq_some h, by simpa using List.find?_some h⟩

theorem get?_isSome_iff {t : Table} {name : String} : (t.get? name).isSome ↔ name ∈ t.names := by
  simp [get?, names]

end Table

end ReaderGen
