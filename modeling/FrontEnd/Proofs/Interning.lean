import FrontEnd.Hir.Names
import Mathlib.Data.List.Nodup

/-!
# Interned names

* `SymbolTable.lookup_eq_some_iff` — a name and its symbol determine each other.
* `SymbolTable.lookup_intern` — interning gives a name its symbol and leaves the others theirs.
* `Names.Extends` — names that were added to: symbols and types keep their positions.
-/

namespace FrontEnd

namespace Hir

namespace SymbolTable

variable {t : SymbolTable} {name other : String} {s : Symbol}

theorem lookup_eq_some_iff : t.lookup name = some s ↔ t.name? s = some name := by
  unfold lookup name?
  rw [Array.findIdx?_eq_some_iff_getElem]
  constructor
  · rintro ⟨hs, he, -⟩
    rw [Array.getElem?_eq_getElem hs, beq_iff_eq.1 he]
  · intro h
    obtain ⟨hs, he⟩ := Array.getElem?_eq_some_iff.1 h
    refine ⟨hs, beq_iff_eq.2 he, fun j hj hname => ?_⟩
    have hs' : s < t.names.toList.length := hs
    have hj' : j < t.names.toList.length := Nat.lt_trans hj hs
    have same : t.names.toList[j] = t.names.toList[s] := (beq_iff_eq.1 hname).trans he.symm
    have := (List.Nodup.getElem_inj_iff t.nodup).1 same
    omega

theorem lt_size_of_lookup (h : t.lookup name = some s) : s < t.size :=
  (Array.getElem?_eq_some_iff.1 (lookup_eq_some_iff.1 h)).1

theorem exists_lookup (h : s < t.size) : ∃ name, t.lookup name = some s :=
  ⟨t.names[s], lookup_eq_some_iff.2 (Array.getElem?_eq_getElem h)⟩

theorem lookup_inj (h : t.lookup name = some s) (h' : t.lookup other = some s) : name = other := by
  rw [lookup_eq_some_iff] at h h'
  exact Option.some.inj (h.symm.trans h')

theorem intern_of_lookup (h : t.lookup name = some s) : t.intern name = (s, t) := by
  unfold intern
  split
  · rename_i s' h'
    rw [h] at h'
    cases h'
    rfl
  · rename_i h'
    rw [h] at h'
    cases h'

theorem names_intern_of_lookup (h : t.lookup name = none) :
    (t.intern name).1 = t.size ∧ (t.intern name).2.names = t.names.push name := by
  unfold intern
  split
  · rename_i s' h'
    rw [h] at h'
    cases h'
  · exact ⟨rfl, rfl⟩

theorem name?_intern (h : t.lookup name = none) :
    (t.intern name).2.name? s = if s = t.size then some name else t.name? s := by
  unfold name?
  rw [(names_intern_of_lookup h).2]
  exact Array.getElem?_push

/-- **Interning gives a name its symbol and leaves the other names theirs.** -/
theorem lookup_intern :
    (t.intern name).2.lookup other =
      if other = name then some (t.intern name).1 else t.lookup other := by
  cases h : t.lookup name with
  | some s =>
      rw [intern_of_lookup h]
      split
      · rename_i he
        rw [he, h]
      · rfl
  | none =>
      have hs := (names_intern_of_lookup h).1
      split
      · rename_i he
        rw [lookup_eq_some_iff, name?_intern h, hs, if_pos rfl, he]
      · rename_i he
        ext s
        rw [lookup_eq_some_iff, lookup_eq_some_iff, name?_intern h]
        split
        · rename_i hsize
          have : t.name? s = none := Array.getElem?_eq_none (Nat.le_of_eq hsize.symm)
          simp [this, Ne.symm he]
        · rfl

theorem size_le_size_intern : t.size ≤ (t.intern name).2.size := by
  cases h : t.lookup name with
  | some s => exact Nat.le_of_eq (by rw [intern_of_lookup h])
  | none =>
      unfold size
      rw [(names_intern_of_lookup h).2, Array.size_push]
      exact Nat.le_succ _

theorem lookup_intern_self : (t.intern name).2.lookup name = some (t.intern name).1 := by
  rw [lookup_intern, if_pos rfl]

theorem lookup_intern_of_lookup (h : t.lookup other = some s) :
    (t.intern name).2.lookup other = some s := by
  rw [lookup_intern]
  split
  · rename_i he
    rw [← he, intern_of_lookup h]
  · exact h

end SymbolTable

namespace Names

/-- The names were added to: symbols and types have kept their positions. -/
structure Extends (n n' : Names) : Prop where
  symbols : ∀ name s, n.symbols.lookup name = some s → n'.symbols.lookup name = some s
  size : n.symbols.size ≤ n'.symbols.size
  types : ∀ (i : TypeId) (s : Symbol), n.types[i]? = some s → n'.types[i]? = some s

variable {n n' n'' : Names}

theorem Extends.refl (n : Names) : n.Extends n where
  symbols := fun _ _ h => h
  size := Nat.le_refl _
  types := fun _ _ h => h

theorem Extends.trans (h : n.Extends n') (h' : n'.Extends n'') : n.Extends n'' where
  symbols := fun name s hs => h'.symbols name s (h.symbols name s hs)
  size := Nat.le_trans h.size h'.size
  types := fun i s hi => h'.types i s (h.types i s hi)

theorem Extends.lookup_eq_none (h : n.Extends n') {name : String}
    (hl : n'.symbols.lookup name = none) : n.symbols.lookup name = none := by
  cases ho : n.symbols.lookup name with
  | none => rfl
  | some s =>
      rw [h.symbols name s ho] at hl
      cases hl

theorem extends_note (n : Names) (e : Event) : n.Extends (n.note e) where
  symbols := fun _ _ h => h
  size := Nat.le_refl _
  types := fun _ _ h => h

theorem extends_intern (n : Names) (name : String) : n.Extends (n.intern name).2 where
  symbols := fun _ _ h => SymbolTable.lookup_intern_of_lookup h
  size := SymbolTable.size_le_size_intern
  types := fun _ _ h => h

/-- A name is interned and left open. -/
theorem extends_register (n : Names) (name : String) (e : Event) (u : OpenName) :
    n.Extends (((n.intern name).2.note e).register u) where
  symbols := (extends_intern n name).symbols
  size := (extends_intern n name).size
  types := (extends_intern n name).types

theorem extends_freshType (n : Names) (name : String) : n.Extends (n.freshType name).2 where
  symbols := (extends_intern n name).symbols
  size := (extends_intern n name).size
  types := by
    intro i s h
    have hi : i ≠ n.types.size := Nat.ne_of_lt (Array.getElem?_eq_some_iff.1 h).1
    show (n.types.push _)[i]? = some s
    rw [Array.getElem?_push, if_neg hi, h]

theorem freshType_registered (n : Names) (name : String) :
    ∃ s, (n.freshType name).2.symbols.lookup name = some s ∧
      (n.freshType name).2.types[(n.freshType name).1]? = some s ∧
      (n.freshType name).2.unresolved.toList =
        n.unresolved.toList ++ [.type (n.freshType name).1 s] := by
  refine ⟨(n.intern name).1, SymbolTable.lookup_intern_self, ?_, Array.toList_push⟩
  exact Array.getElem?_push.trans (if_pos rfl)

theorem extends_freshType? (n : Names) (name : Option String) :
    n.Extends (n.freshType? name).2 := by
  cases name with
  | none => exact .refl n
  | some name => exact extends_freshType n name

end Names

end Hir

end FrontEnd
