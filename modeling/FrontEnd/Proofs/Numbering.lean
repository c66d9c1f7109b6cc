import FrontEnd.Proofs.FirstUses
import Mathlib.Data.Finset.Card

/-!
# The numbering of names

Names are requested one after the other, and a name gets its symbol at its first request.  From then on the
name and the symbol determine each other.

* `requestAll` — requests in order, with the symbols that are handed out for them.
* `Naming` — what can be asked when names were requested.  `Naming.Numbers` says that the requested names
  and no others are numbered, `Naming.Kept` that later answers agree with the earlier ones.
* `SymbolTable.numbers_requestAll` — every run of requests to the table numbers the requested names.
* `Directory` — the names in an array, and beside it an index from names to symbols that is kept on its own.
* `Directory.Mirrors` — the index has what the table finds.  `Mirrors.intern` is the step and
  `Mirrors.requestAll` the run; `Mirrors.naming` says that the two answer alike.
* `requestAll_bijective` — names and symbols are in bijection, which later requests only extend.
-/

namespace FrontEnd

namespace Hir

/-! ## Requests and namings -/

/-- Names requested one after the other: the symbols that are handed out, and what the requests leave
behind. -/
def requestAll {σ : Type} (request : σ → String → Symbol × σ) (start : σ) :
    List String → List Symbol × σ
  | [] => ([], start)
  | name :: rest =>
    let one := request start name
    let others := requestAll request one.2 rest
    (one.1 :: others.1, others.2)

/-- What can be asked of names and symbols. -/
structure Naming where
  size : Nat
  /-- what a request for the name would get -/
  symbol : String → Symbol
  lookup : String → Option Symbol
  name? : Symbol → Option String

/-- Between the names that were requested and the symbols that they got there is a bijection, and the answers
are its two directions. -/
structure Naming.Numbers (a : Naming) (requests : List String) (symbols : List Symbol) : Prop where
  /-- there are as many symbols as different names -/
  size : a.size = requests.toFinset.card
  /-- they are the first numbers, and all of them were handed out -/
  handed : ∀ s, s ∈ symbols ↔ s < a.size
  /-- what was handed out for a name is still its symbol -/
  current : symbols.map some = requests.map a.lookup
  name?_symbol : ∀ name ∈ requests, a.name? (a.symbol name) = some name
  lookup_symbol : ∀ name ∈ requests, a.lookup name = some (a.symbol name)
  lookup_name : ∀ s < a.size, ∃ name, a.name? s = some name ∧ a.lookup name = some s
  nameless : ∀ s, a.name? s = none ↔ a.size ≤ s
  unknown : ∀ name, a.lookup name = none ↔ name ∉ requests

/-- Names keep their symbols and symbols their names. -/
structure Naming.Kept (a later : Naming) : Prop where
  lookup : ∀ name s, a.lookup name = some s → later.lookup name = some s
  name? : ∀ s name, a.name? s = some name → later.name? s = some name

/-! ## The table -/

namespace SymbolTable

def naming (t : SymbolTable) : Naming where
  size := t.size
  symbol name := (t.intern name).1
  lookup := t.lookup
  name? := t.name?

variable {t : SymbolTable} {name : String} {names : List String} {s : Symbol}

theorem lookup_eq_none_iff : t.lookup name = none ↔ name ∉ t.names := by
  refine ⟨not_mem_of_lookup_eq_none, fun h => ?_⟩
  cases hl : t.lookup name with
  | none => rfl
  | some s => exact absurd (Array.mem_of_getElem? (lookup_eq_some_iff.1 hl)) h

theorem name?_eq_none_iff : t.name? s = none ↔ t.size ≤ s := Array.getElem?_eq_none_iff

theorem requestAll_snd (t : SymbolTable) (names : List String) :
    (requestAll intern t names).2 = t.internAll names := by
  induction names generalizing t with
  | nil => rfl
  | cons name rest ih => exact ih (t.intern name).2

/-- No request takes a symbol away from the name that has it. -/
theorem lookup_internAll_of_lookup (h : t.lookup name = some s) :
    (t.internAll names).lookup name = some s := by
  induction names generalizing t with
  | nil => exact h
  | cons other rest ih => exact ih (lookup_intern_of_lookup h)

/-- The symbols that are handed out are those under which the names are found in the end. -/
theorem requestAll_fst (t : SymbolTable) (names : List String) :
    (requestAll intern t names).1.map some = names.map (t.internAll names).lookup := by
  induction names generalizing t with
  | nil => rfl
  | cons name rest ih =>
      have own : ((t.intern name).2.internAll rest).lookup name = some (t.intern name).1 :=
        lookup_internAll_of_lookup lookup_intern_self
      rw [internAll_cons, List.map_cons, own]
      exact congrArg (some (t.intern name).1 :: ·) (ih (t.intern name).2)

/-- From the empty table on, the requested names are interned and no others. -/
theorem lookup_internAll_eq_none_iff :
    (empty.internAll names).lookup name = none ↔ name ∉ names := by
  rw [lookup_eq_none_iff, mem_names_internAll]
  exact not_congr (or_iff_right (Array.not_mem_empty name))

theorem exists_lookup_internAll_iff :
    (∃ s, (empty.internAll names).lookup name = some s) ↔ name ∈ names := by
  rw [← Option.ne_none_iff_exists', Ne, lookup_internAll_eq_none_iff, not_not]

/-- The symbols that are handed out are the numbers below the size of the table. -/
theorem mem_requestAll_fst :
    s ∈ (requestAll intern empty names).1 ↔ s < (empty.internAll names).size := by
  rw [← List.mem_map_of_injective (Option.some_injective Symbol), requestAll_fst, List.mem_map]
  constructor
  · rintro ⟨name, -, hl⟩
    exact lt_size_of_lookup hl
  · intro hs
    obtain ⟨name, hl⟩ := exists_lookup hs
    exact ⟨name, exists_lookup_internAll_iff.1 ⟨s, hl⟩, hl⟩

theorem size_internAll : (empty.internAll names).size = names.toFinset.card := by
  have same : (empty.internAll names).names.toList.toFinset = names.toFinset := by
    ext name
    rw [List.mem_toFinset, List.mem_toFinset, names_internAll, List.mem_eraseDups]
    rfl
  rw [← same, List.toFinset_card_of_nodup (empty.internAll names).nodup, Array.length_toList]
  rfl

/-- **Every run of requests numbers the requested names.** -/
theorem numbers_requestAll (names : List String) :
    (requestAll intern empty names).2.naming.Numbers names (requestAll intern empty names).1 := by
  rw [requestAll_snd]
  have symbol : ∀ name ∈ names, (empty.internAll names).lookup name =
      some ((empty.internAll names).intern name).1 := by
    intro name hmem
    obtain ⟨s, hs⟩ := exists_lookup_internAll_iff.2 hmem
    rw [intern_of_lookup hs, hs]
  exact {
    size := size_internAll
    handed := fun _ => mem_requestAll_fst
    current := requestAll_fst empty names
    name?_symbol := fun name hmem => lookup_eq_some_iff.1 (symbol name hmem)
    lookup_symbol := symbol
    lookup_name := fun s hs => by
      obtain ⟨name, hl⟩ := exists_lookup hs
      exact ⟨name, lookup_eq_some_iff.1 hl, hl⟩
    nameless := fun _ => name?_eq_none_iff
    unknown := fun _ => lookup_internAll_eq_none_iff }

/-- More requests leave the earlier answers as they are. -/
theorem kept_requestAll (names more : List String) :
    (requestAll intern empty names).2.naming.Kept
      (requestAll intern empty (names ++ more)).2.naming := by
  rw [requestAll_snd, requestAll_snd, internAll_append]
  exact {
    lookup := fun _ _ hl => lookup_internAll_of_lookup hl
    name? := fun _ _ hn =>
      lookup_eq_some_iff.1 (lookup_internAll_of_lookup (lookup_eq_some_iff.2 hn)) }

end SymbolTable

/-! ## Directories -/

/-- Names in the order of their symbols, and beside them an index from names to symbols.  Where the table
looks through its names, a directory asks the index. -/
structure Directory where
  names : Array String
  ids : Std.HashMap String Symbol

namespace Directory

def empty : Directory := ⟨#[], ∅⟩

def size (d : Directory) : Nat := d.names.size

def lookup (d : Directory) (name : String) : Option Symbol := d.ids[name]?

def name? (d : Directory) (s : Symbol) : Option String := d.names[s]?

/-- The symbol of a name.  A name that the index does not have is entered there with the next number and
put behind the others. -/
def intern (d : Directory) (name : String) : Symbol × Directory :=
  match d.lookup name with
  | some s => (s, d)
  | none => (d.size, ⟨d.names.push name, d.ids.insert name d.size⟩)

def naming (d : Directory) : Naming where
  size := d.size
  symbol name := (d.intern name).1
  lookup := d.lookup
  name? := d.name?

/-- The directory has the names of the table, and its index has what the table finds. -/
structure Mirrors (d : Directory) (t : SymbolTable) : Prop where
  names : d.names = t.names
  lookup : ∀ name, d.lookup name = t.lookup name

variable {d : Directory} {t : SymbolTable} {name : String} {s : Symbol}

theorem intern_of_lookup (h : d.lookup name = some s) : d.intern name = (s, d) := by
  simp only [intern, h]

theorem intern_of_lookup_eq_none (h : d.lookup name = none) :
    d.intern name = (d.size, ⟨d.names.push name, d.ids.insert name d.size⟩) := by
  simp only [intern, h]

theorem mirrors_empty : empty.Mirrors SymbolTable.empty where
  names := rfl
  lookup name := by
    rw [SymbolTable.lookup_eq_none_iff.2 (Array.not_mem_empty name)]
    exact Std.HashMap.getElem?_empty

theorem Mirrors.size (h : d.Mirrors t) : d.size = t.size := congrArg Array.size h.names

theorem Mirrors.name? (h : d.Mirrors t) (s : Symbol) : d.name? s = t.name? s :=
  congrArg (fun names : Array String => names[s]?) h.names

/-- **Index and names are inverse to each other.** -/
theorem Mirrors.inverse (h : d.Mirrors t) : d.lookup name = some s ↔ d.name? s = some name := by
  rw [h.lookup, h.name?, SymbolTable.lookup_eq_some_iff]

/-- **A request gets the same symbol from both**, and a new name is entered in both alike. -/
theorem Mirrors.intern (h : d.Mirrors t) (name : String) :
    (d.intern name).1 = (t.intern name).1 ∧ (d.intern name).2.Mirrors (t.intern name).2 := by
  cases hl : t.lookup name with
  | some s =>
      rw [SymbolTable.intern_of_lookup hl, intern_of_lookup ((h.lookup name).trans hl)]
      exact ⟨rfl, h⟩
  | none =>
      -- both put the name behind the others, under the size that they share
      obtain ⟨symbol, names⟩ := SymbolTable.names_intern_of_lookup hl
      rw [intern_of_lookup_eq_none ((h.lookup name).trans hl)]
      refine ⟨h.size.trans symbol.symm, ?_, fun other => ?_⟩
      · rw [names, ← h.names]
      · rw [SymbolTable.lookup_intern, symbol, ← h.size, ← h.lookup]
        by_cases he : other = name
        · rw [if_pos he, he]
          exact Std.HashMap.getElem?_insert_self
        · rw [if_neg he]
          exact Std.HashMap.getElem?_insert.trans (if_neg fun hb => he (eq_of_beq hb).symm)

/-- **A run of requests gets the same symbols from both.** -/
theorem Mirrors.requestAll (h : d.Mirrors t) (names : List String) :
    (Hir.requestAll Directory.intern d names).1 = (Hir.requestAll SymbolTable.intern t names).1 ∧
      (Hir.requestAll Directory.intern d names).2.Mirrors
        (Hir.requestAll SymbolTable.intern t names).2 := by
  induction names generalizing d t with
  | nil => exact ⟨rfl, h⟩
  | cons name rest ih =>
      obtain ⟨symbol, mirrors⟩ := h.intern name
      obtain ⟨others, mirrors'⟩ := ih mirrors
      exact ⟨congrArg₂ List.cons symbol others, mirrors'⟩

/-- Whatever is asked, both give the same answer. -/
theorem Mirrors.naming (h : d.Mirrors t) : d.naming = t.naming := by
  have symbol : (fun name => (d.intern name).1) = fun name => (t.intern name).1 :=
    funext fun name => (h.intern name).1
  have lookup : d.lookup = t.lookup := funext h.lookup
  have name? : d.name? = t.name? := funext h.name?
  unfold Directory.naming SymbolTable.naming
  rw [h.size, symbol, lookup, name?]

end Directory

/-! ## The bijection -/

/-- **Names and symbols are in bijection, and the bijection only grows.**  Names that are requested one after
the other get the first numbers, as many as there are different names.  The table then leads from each of
these names to its symbol and back, and knows no other name and no other symbol.  To request a name again
changes nothing, and later requests leave the symbols of the names and the names of the symbols as they are.
A directory hands out the same symbols and gives the same answers, for its array and its index stay inverse
to each other. -/
theorem requestAll_bijective (requests : List String) :
    let table := requestAll SymbolTable.intern SymbolTable.empty
    let directory := requestAll Directory.intern Directory.empty
    let t := (table requests).2
    let d := (directory requests).2
    t.naming.Numbers requests (table requests).1 ∧
    (∀ name ∈ requests, (t.intern name).2 = t ∧ (d.intern name).2 = d) ∧
    (∀ more, t.naming.Kept (table (requests ++ more)).2.naming) ∧
    (directory requests).1 = (table requests).1 ∧ d.naming = t.naming ∧
    ∀ (name : String) (s : Symbol), d.ids[name]? = some s ↔ d.names[s]? = some name := by
  intro table directory t d
  have numbers : t.naming.Numbers requests (table requests).1 := SymbolTable.numbers_requestAll requests
  obtain ⟨handed, mirrors⟩ : (directory requests).1 = (table requests).1 ∧ d.Mirrors t :=
    Directory.mirrors_empty.requestAll requests
  refine ⟨numbers, fun name hmem => ?_, SymbolTable.kept_requestAll requests, handed, mirrors.naming,
    fun _ _ => mirrors.inverse⟩
  have found : t.lookup name = some (t.intern name).1 := numbers.lookup_symbol name hmem
  rw [SymbolTable.intern_of_lookup found, Directory.intern_of_lookup ((mirrors.lookup name).trans found)]
  exact ⟨rfl, rfl⟩

/-- Two of three requests are for the same name, so there are two symbols.  After two more requests `x` has
still the first of them, and a directory has handed out what the table did. -/
theorem requestAll_bijective_twice :
    let t := (requestAll SymbolTable.intern .empty ["x", "y", "x"]).2
    let d := (requestAll Directory.intern .empty ["x", "y", "x"]).2
    let later := (requestAll SymbolTable.intern .empty (["x", "y", "x"] ++ ["z", "y"])).2
    (requestAll Directory.intern .empty ["x", "y", "x"]).1 = [0, 1, 0] ∧ d.size = 2 ∧
      (d.intern "x").2 = d ∧ t.name? (t.intern "x").1 = some "x" ∧ d.lookup "y" = some 1 ∧
      d.lookup "z" = none ∧ d.name? 2 = none ∧ later.lookup "x" = some 0 ∧
      later.name? 2 = some "z" := by
  intro t d later
  obtain ⟨numbers, again, kept, handed, naming, inverse⟩ := requestAll_bijective ["x", "y", "x"]
  have two : t.size = 2 := numbers.size.trans (by decide)
  have directory : d.naming.Numbers ["x", "y", "x"] _ := naming ▸ numbers
  have same : d.size = t.size := congrArg Naming.size naming
  have y : d.name? 1 = some "y" := (congrFun (congrArg Naming.name? naming) 1).trans (by decide +kernel)
  exact ⟨handed.trans (by decide +kernel), same.trans two, (again "x" (by decide)).2,
    numbers.name?_symbol "x" (by decide), (inverse "y" 1).2 y, (directory.unknown "z").2 (by decide),
    (directory.nameless 2).2 (same.trans two).le, (kept ["z", "y"]).lookup "x" 0 (by decide +kernel),
    by decide +kernel⟩

end Hir

end FrontEnd
