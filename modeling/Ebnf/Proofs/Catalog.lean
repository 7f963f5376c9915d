import Mathlib.Logic.Function.Basic
import Ebnf.Proofs.Bindings
import Ebnf.Proofs.FirstOccurrences
/-! A map against a catalog: a list of keys in order, and a function from keys to
values. Each operation on the map is one on the catalog that it is seen as, and
gives the same reply, so a map after any work is what the catalog says. -/

namespace Ebnf

namespace InsertionMap

inductive Operation (κ ν : Type)
  | collect (bindings : List (κ × ν))
  | insert (k : κ) (v : ν)
  | modify (k : κ) (f : ν → ν)
  | sortKeys
  | drain
  | get? (k : κ)
  | get (location : String) (k : κ)
  | keys
  | values
  | entries
  | size
  | isEmpty

inductive Reply (κ ν : Type)
  | done
  | value (v : Option ν)
  | looked (result : Except Defect ν)
  | keys (ks : List κ)
  | values (vs : List ν)
  | entries (es : List (κ × ν))
  | size (n : Nat)
  | isEmpty (b : Bool)

/-- Does one operation after the other, and collects the replies. -/
def Operation.run {κ ν σ : Type} (perform : σ → Operation κ ν → Reply κ ν × σ) (s : σ) :
    List (Operation κ ν) → List (Reply κ ν) × σ
  | [] => ([], s)
  | op :: rest =>
    let next := perform s op
    let final := run perform next.2 rest
    (next.1 :: final.1, final.2)

variable {κ ν : Type} [LinearOrder κ]

/-- Does an operation on a map. -/
def perform (m : InsertionMap κ ν) : Operation κ ν → Reply κ ν × InsertionMap κ ν
  | .collect bindings => (.done, ofList bindings)
  | .insert k v =>
    let (old, m) := m.exchange k v
    (.value old, m)
  | .modify k f => (.value (m.get? k), m.modify k f)
  | .sortKeys => (.done, m.sortKeys)
  | .drain => (.entries m.entries, ∅)
  | .get? k => (.value (m.get? k), m)
  | .get location k => (.looked (m.get location k), m)
  | .keys => (.keys m.keys, m)
  | .values => (.values m.values, m)
  | .entries => (.entries m.entries, m)
  | .size => (.size m.size, m)
  | .isEmpty => (.isEmpty m.isEmpty, m)

end InsertionMap

/-- Keys in order, and the value of each. -/
structure Catalog (κ ν : Type) where
  order : List κ
  value : κ → Option ν

namespace Catalog

open InsertionMap (Operation Reply)

variable {κ ν : Type} [LinearOrder κ]

def empty : Catalog κ ν := ⟨[], fun _ => none⟩

/-- Every key has a place in the order, exactly if it has a value, and only one. -/
structure Tidy (c : Catalog κ ν) : Prop where
  nodup : c.order.Nodup
  mem_order : ∀ k, k ∈ c.order ↔ (c.value k).isSome

/-- The keys of some bindings in order of first occurrence, each with its last value. -/
def collect (bindings : List (κ × ν)) : Catalog κ ν :=
  ⟨(bindings.map Prod.fst).eraseDups, fun k => bindings.reverse.lookup k⟩

/-- A new value for a key. The key goes to the end of the order if it is new itself. -/
def insert (c : Catalog κ ν) (k : κ) (v : ν) : Catalog κ ν :=
  ⟨if k ∈ c.order then c.order else c.order ++ [k], Function.update c.value k (some v)⟩

def modify (c : Catalog κ ν) (k : κ) (f : ν → ν) : Catalog κ ν :=
  ⟨c.order, Function.update c.value k ((c.value k).map f)⟩

def sortKeys (c : Catalog κ ν) : Catalog κ ν := ⟨c.order.insertionSort (· ≤ ·), c.value⟩

def entries (c : Catalog κ ν) : List (κ × ν) := c.order.filterMap fun k => (c.value k).map (k, ·)

def values (c : Catalog κ ν) : List ν := c.order.filterMap c.value

def get (c : Catalog κ ν) (location : String) (k : κ) : Except Defect ν :=
  match c.value k with
  | some v => .ok v
  | none => .error ⟨location, "OrderedMap: key not found"⟩

omit [LinearOrder κ] in
theorem values_eq (c : Catalog κ ν) : c.values = c.entries.map Prod.snd := by
  rw [values, entries, List.map_filterMap]
  refine List.filterMap_congr fun k _ => ?_
  rw [Option.map_map]
  exact Option.map_id'.symm

/-- Does an operation on a catalog. -/
def perform (c : Catalog κ ν) : Operation κ ν → Reply κ ν × Catalog κ ν
  | .collect bindings => (.done, collect bindings)
  | .insert k v => (.value (c.value k), c.insert k v)
  | .modify k f => (.value (c.value k), c.modify k f)
  | .sortKeys => (.done, c.sortKeys)
  | .drain => (.entries c.entries, empty)
  | .get? k => (.value (c.value k), c)
  | .get location k => (.looked (c.get location k), c)
  | .keys => (.keys c.order, c)
  | .values => (.values c.values, c)
  | .entries => (.entries c.entries, c)
  | .size => (.size c.order.length, c)
  | .isEmpty => (.isEmpty c.order.isEmpty, c)

end Catalog

namespace InsertionMap

variable {κ ν : Type} [LinearOrder κ]

/-- What a map is seen as. -/
def catalog (m : InsertionMap κ ν) : Catalog κ ν := ⟨m.keys, m.get?⟩

theorem mem_keys_iff (m : InsertionMap κ ν) (k : κ) : k ∈ m.keys ↔ (m.get? k).isSome := by
  rw [← not_iff_not, ← get?_eq_none_iff, Bool.not_eq_true, Option.isSome_eq_false_iff,
    Option.isNone_iff_eq_none]

theorem catalog_order (m : InsertionMap κ ν) : m.catalog.order = m.keys := rfl

theorem catalog_value (m : InsertionMap κ ν) (k : κ) : m.catalog.value k = m.get? k := rfl

theorem catalog_empty : (∅ : InsertionMap κ ν).catalog = .empty := rfl

theorem catalog_insert (m : InsertionMap κ ν) (k : κ) (v : ν) :
    (m.insert k v).catalog = m.catalog.insert k v := by
  have hvalue : (m.insert k v).get? = Function.update m.get? k (some v) := by
    funext k'
    rw [get?_insert, Function.update_apply]
    exact if_congr eq_comm rfl rfl
  rw [catalog, keys_insert, hvalue]
  rfl

theorem catalog_modify (m : InsertionMap κ ν) (k : κ) (f : ν → ν) :
    (m.modify k f).catalog = m.catalog.modify k f := by
  rw [modify, Catalog.modify, catalog_value]
  cases h : m.get? k with
  | some v =>
    have hk : k ∈ m.catalog.order := (m.mem_keys_iff k).2 (h ▸ rfl)
    rw [Option.map_some, catalog_insert, Catalog.insert, if_pos hk]
  | none =>
    have hsame : Function.update m.catalog.value k none = m.catalog.value := by
      rw [← h, ← catalog_value, Function.update_eq_self]
    rw [Option.map_none, hsame]

theorem ofList_concat (l : List (κ × ν)) (e : κ × ν) : ofList (l ++ [e]) = (ofList l).insert e.1 e.2 :=
  List.foldl_concat ..

theorem catalog_ofList (l : List (κ × ν)) : (ofList l).catalog = .collect l := by
  -- from the end, because the last binding of a key is the one that counts
  induction l using List.reverseRecOn with
  | nil => rfl
  | append_singleton l e ih =>
    rw [ofList_concat, catalog_insert, ih, Catalog.insert, Catalog.collect, Catalog.collect]
    congr 1
    · rw [List.map_append, List.map_singleton, eraseDups_concat]
      simp only [List.mem_eraseDups]
    · funext k
      rw [Function.update_apply, List.reverse_append, List.reverse_singleton, List.singleton_append,
        List.lookup_cons]
      by_cases h : k = e.1
      · rw [if_pos h, beq_iff_eq.2 h]
      · rw [if_neg h, beq_eq_false_iff_ne.2 h]

theorem catalog_sortKeys (m : InsertionMap κ ν) : m.sortKeys.catalog = m.catalog.sortKeys := by
  have hvalue : m.sortKeys.get? = m.get? := funext (get?_of_perm m.entries_sortKeys_perm)
  -- both orders ascend and have the same keys, which leaves one order only
  have hperm : m.sortKeys.keys.Perm (m.keys.insertionSort (· ≤ ·)) :=
    (m.entries_sortKeys_perm.map Prod.fst).trans (List.perm_insertionSort _ _).symm
  have horder : m.sortKeys.keys = m.keys.insertionSort (· ≤ ·) :=
    hperm.eq_of_pairwise (fun a b _ _ => le_antisymm) (m.keys_sortKeys_pairwise.imp le_of_lt)
      (List.pairwise_insertionSort _ _)
  rw [catalog, hvalue, horder]
  rfl

theorem entries_catalog (m : InsertionMap κ ν) : m.catalog.entries = m.entries := by
  rw [Catalog.entries, catalog_order, keys, List.filterMap_map]
  refine (List.filterMap_congr fun e he => ?_).trans List.filterMap_some
  rw [Function.comp_apply, catalog_value, (m.get?_eq_some_iff _ _).2 he, Option.map_some]

theorem values_catalog (m : InsertionMap κ ν) : m.catalog.values = m.values := by
  rw [Catalog.values_eq, entries_catalog]
  rfl

theorem get_catalog (m : InsertionMap κ ν) (location : String) (k : κ) :
    m.catalog.get location k = m.get location k := by
  rw [Catalog.get, get, catalog_value]
  cases m.get? k with
  | some v => rfl
  | none => rfl

theorem length_catalog (m : InsertionMap κ ν) : m.catalog.order.length = m.size := List.length_map _

theorem isEmpty_catalog (m : InsertionMap κ ν) : m.catalog.order.isEmpty = m.isEmpty := List.isEmpty_map

theorem tidy_catalog (m : InsertionMap κ ν) : m.catalog.Tidy := ⟨m.nodup_keys, m.mem_keys_iff⟩

/-- One operation on a map is one on its catalog, with the same reply. -/
theorem perform_catalog (m : InsertionMap κ ν) (op : Operation κ ν) :
    (m.perform op).map id catalog = m.catalog.perform op := by
  cases op with
  | collect bindings => exact congrArg (Prod.mk _) (catalog_ofList bindings)
  | insert k v => exact congrArg (Prod.mk _) (m.catalog_insert k v)
  | modify k f => exact congrArg (Prod.mk _) (m.catalog_modify k f)
  | sortKeys => exact congrArg (Prod.mk _) m.catalog_sortKeys
  | drain => rw [Catalog.perform, entries_catalog, ← catalog_empty]; rfl
  | get location k => rw [Catalog.perform, get_catalog]; rfl
  | values => rw [Catalog.perform, values_catalog]; rfl
  | entries => rw [Catalog.perform, entries_catalog]; rfl
  | size => rw [Catalog.perform, length_catalog]; rfl
  | isEmpty => rw [Catalog.perform, isEmpty_catalog]; rfl
  | get? k => rfl
  | keys => rfl

/-- Any work on a map is the same work on its catalog, with the same replies. -/
theorem run_catalog (m : InsertionMap κ ν) (ops : List (Operation κ ν)) :
    (Operation.run perform m ops).map id catalog = Operation.run Catalog.perform m.catalog ops := by
  induction ops generalizing m with
  | nil => rfl
  | cons op rest ih =>
    rw [Operation.run, Operation.run, ← perform_catalog, Prod.map_snd, ← ih]
    rfl

theorem get_eq_error_iff (m : InsertionMap κ ν) (location : String) (k : κ) :
    (∃ d, m.get location k = .error d) ↔ m.get? k = none := by
  rw [get]
  cases m.get? k with
  | some v => simp [Defect.expectSome]
  | none => simp [Defect.expectSome]

theorem sortKeys_sortKeys (m : InsertionMap κ ν) : m.sortKeys.sortKeys = m.sortKeys :=
  sortKeys_eq_of_perm m.entries_sortKeys_perm

/-- Whatever is done with a map, it replies as a catalog does to which the same is
done, and is seen as that catalog in the end: collecting, inserting, changing,
sorting and draining do to the keys and the values what they do there. Sorted keys
ascend, and how they came to be bound does not show. -/
theorem run_follows_catalog (ops : List (Operation κ ν)) :
    (Operation.run perform (∅ : InsertionMap κ ν) ops).1 = (Operation.run Catalog.perform .empty ops).1 ∧
    (Operation.run perform (∅ : InsertionMap κ ν) ops).2.catalog =
      (Operation.run Catalog.perform .empty ops).2 ∧
    (Operation.run Catalog.perform (.empty : Catalog κ ν) ops).2.Tidy ∧
    (∀ bindings : List (κ × ν), FirstOccurrences (bindings.map Prod.fst) (ofList bindings).keys) ∧
    (∀ m : InsertionMap κ ν, m.sortKeys.keys.Pairwise (· < ·) ∧ m.sortKeys.sortKeys = m.sortKeys ∧
      ∀ n : InsertionMap κ ν, (∀ k, m.get? k = n.get? k) → m.sortKeys = n.sortKeys) ∧
    ∀ (m : InsertionMap κ ν) location k, (∃ d, m.get location k = .error d) ↔ m.get? k = none := by
  have hrun := run_catalog (∅ : InsertionMap κ ν) ops
  refine ⟨congrArg Prod.fst hrun, congrArg Prod.snd hrun, ?_, fun bindings => ?_, fun m => ?_,
    get_eq_error_iff⟩
  · exact congrArg Prod.snd hrun ▸ tidy_catalog _
  · have hkeys : (ofList bindings).keys = (bindings.map Prod.fst).eraseDups :=
      congrArg Catalog.order (catalog_ofList bindings)
    exact hkeys ▸ firstOccurrences_eraseDups _
  · exact ⟨m.keys_sortKeys_pairwise, m.sortKeys_sortKeys,
      fun n h => sortKeys_eq_of_perm (perm_iff_get?.2 h)⟩

/-- Work on a key that is bound three times, one that is changed and one that is missing. -/
def mixedOperations : List (Operation String Nat) :=
  [.collect [("z", 1), ("a", 2), ("z", 3)], .insert "m" 4, .insert "z" 5, .modify "a" (· + 1),
    .modify "q" (· + 1), .get "shelf" "q", .keys, .sortKeys, .drain, .isEmpty]

theorem run_mixedOperations : (Operation.run perform (∅ : InsertionMap String Nat) mixedOperations).1 =
      [.done, .value none, .value (some 3), .value (some 2), .value none,
        .looked (.error ⟨"shelf", "OrderedMap: key not found"⟩), .keys ["z", "a", "m"], .done,
        .entries [("a", 3), ("m", 4), ("z", 5)], .isEmpty true] ∧
    (ofList [("z", 1), ("a", 2), ("z", 3)]).sortKeys = (ofList [("a", 2), ("z", 3)]).sortKeys := by
  obtain ⟨hreplies, -, -, -, hsort, -⟩ := run_follows_catalog mixedOperations
  have hbound : ∀ k, (ofList [("z", 1), ("a", 2), ("z", 3)]).get? k = (ofList [("a", 2), ("z", 3)]).get? k :=
    perm_iff_get?.1 (by decide)
  refine ⟨hreplies.trans ?_, (hsort _).2.2 _ hbound⟩
  rfl

end InsertionMap

end Ebnf
