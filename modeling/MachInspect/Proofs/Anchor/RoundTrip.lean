-- SUMMARY: A link is read back as the anchor it was written for, in whatever order its query is.
import Mathlib.Data.List.Basic
import MachInspect.Proofs.Text.Numerals
import MachInspect.Proofs.Text.Separators

/-!
# Links are read back

A link is a path and a query of key-value pairs (`link`). Reading looks at the pairs with the keys
`addend` and `size` only; so an anchor is read from every query that has its own pairs, in any order
and among any others.
-/
namespace MachInspect.Anchor

open Text

/-! ## Links and their parts -/

section Links

variable {pair : String × String} {pairs : List (String × String)}

/-- What a link names. -/
def path : Anchor → String
  | symbol index _ _ => "/symbol/" ++ decimal index.toNat
  | address base _ => "/address/" ++ decimal base.toNat

/-- What a link says of the place it names. -/
def query : Anchor → List (String × String)
  | symbol _ addend size =>
    [("addend", signedDecimal addend.toInt), ("size", decimal size.toNat)]
  | address _ size => [("size", decimal size.toNat)]

def pairText (pair : String × String) : String := pair.1 ++ "=" ++ pair.2

def queryText (pairs : List (String × String)) : String := "&".intercalate (pairs.map pairText)

/-- The link with a path and the pairs of a query. -/
def link (path : String) (pairs : List (String × String)) : String :=
  path ++ "?" ++ queryText pairs

/-- Whether a pair can be told apart from others in a query: no separator stands in its key or
value, save that a value may hold further equals signs. -/
structure IsPair (pair : String × String) : Prop where
  key_equals : '=' ∉ pair.1.toList
  key_ampersand : '&' ∉ pair.1.toList
  value_ampersand : '&' ∉ pair.2.toList

theorem text_eq_link (anchor : Anchor) : anchor.text = link anchor.path anchor.query := by
  apply String.toList_inj.mp
  cases anchor <;> simp [text, link, path, query, queryText, pairText]

theorem toList_pairText (pair : String × String) :
    (pairText pair).toList = pair.1.toList ++ '=' :: pair.2.toList := by
  simp [pairText]

theorem IsPair.splitOnce?_eq (h : IsPair pair) :
    splitOnce? '=' (pairText pair).toList = some (pair.1.toList, pair.2.toList) := by
  rw [toList_pairText, splitOnce?_append h.key_equals]

theorem IsPair.notMem (h : IsPair pair) : '&' ∉ (pairText pair).toList := by
  simp [toList_pairText, h.key_ampersand, h.value_ampersand]

/-- The pairs of a query are found again. -/
theorem filterMap_splitAll (hne : pairs ≠ []) (hpairs : ∀ pair ∈ pairs, IsPair pair) :
    (splitAll '&' (queryText pairs).toList).filterMap (splitOnce? '=') =
      pairs.map fun pair => (pair.1.toList, pair.2.toList) := by
  have hparts : splitAll '&' (queryText pairs).toList =
      pairs.map fun pair => (pairText pair).toList := by
    rw [splitAll_eq_splitOn, queryText, String.toList_intercalate, List.map_map]
    apply List.splitOn_intercalate
    · intro part hpart
      obtain ⟨pair, hpair, rfl⟩ := List.mem_map.mp hpart
      exact (hpairs pair hpair).notMem
    · simpa using hne
  rw [hparts, List.filterMap_map, List.filterMap_eq_map_iff_forall_eq_some]
  exact fun pair hpair => (hpairs pair hpair).splitOnce?_eq

end Links

/-! ## Reading -/

section Reading

variable {pairs : List (String × String)} {key value : String}

/-- A value is found by its key, wherever the pair stands, if no other pair has the key. -/
theorem lookup_eq_some {l : List (List Char × List Char)} {k v : List Char} (hmem : (k, v) ∈ l)
    (hunique : ∀ v', (k, v') ∈ l → v' = v) : l.lookup k = some v := by
  induction l with
  | nil => simp at hmem
  | cons p rest ih =>
    obtain ⟨k', v'⟩ := p
    by_cases hk : k = k'
    · subst hk
      rw [List.lookup_cons_self, hunique v' List.mem_cons_self]
    · have hrest : (k, v) ∈ rest := by simpa [hk] using hmem
      have hbeq : (k == k') = false := by simpa using hk
      rw [List.lookup_cons, hbeq]
      exact ih hrest fun v' hv' => hunique v' (List.mem_cons_of_mem _ hv')

theorem queryValue?_eq (hpairs : ∀ pair ∈ pairs, IsPair pair) (hmem : (key, value) ∈ pairs)
    (hunique : ∀ value', (key, value') ∈ pairs → value' = value) :
    queryValue? (queryText pairs).toList key = some value.toList := by
  rw [queryValue?, filterMap_splitAll (List.ne_nil_of_mem hmem) hpairs]
  apply lookup_eq_some
  · exact List.mem_map.mpr ⟨_, hmem, rfl⟩
  · intro v' hv'
    obtain ⟨⟨key', value'⟩, hpair, heq⟩ := List.mem_map.mp hv'
    obtain ⟨hkey, rfl⟩ := Prod.mk.inj heq
    obtain rfl := String.toList_inj.mp hkey
    rw [hunique value' hpair]

theorem after?_append (beginning : String) (rest : List Char) :
    after? beginning (beginning.toList ++ rest) = some rest := by
  rw [after?, if_pos (by simp), List.drop_left' String.length_toList]

/-- The keys that anchors are read from. -/
def ownKeys : List String := ["addend", "size"]

/-- The query has the pairs of an anchor, and no others with a key that is looked at. -/
def HasOwn (anchor : Anchor) (pairs : List (String × String)) : Prop :=
  ∀ key ∈ ownKeys, ∀ value, (key, value) ∈ pairs ↔ (key, value) ∈ anchor.query

theorem queryNumber?_eq {α : Type} {n : α} {read : List Char → Option α} {anchor : Anchor}
    (missing : α) (hpairs : ∀ pair ∈ pairs, IsPair pair) (hown : HasOwn anchor pairs)
    (hkey : key ∈ ownKeys) (hquery : ∀ value', (key, value') ∈ anchor.query ↔ value' = value)
    (hread : read value.toList = some n) :
    queryNumber? (queryText pairs).toList key missing read = some n := by
  have hvalue (value' : String) : (key, value') ∈ pairs ↔ value' = value :=
    (hown key hkey value').trans (hquery value')
  rw [queryNumber?, queryValue?_eq hpairs ((hvalue value).mpr rfl) fun v hv => (hvalue v).mp hv]
  exact hread

theorem splitOnce?_link (anchor : Anchor) (pairs : List (String × String)) :
    splitOnce? '?' (link anchor.path pairs).toList =
      some (anchor.path.toList, (queryText pairs).toList) := by
  have hpath : '?' ∉ anchor.path.toList := by
    cases anchor <;> simp [path, decimal, notMem_toDigits]
  have hlink : (link anchor.path pairs).toList =
      anchor.path.toList ++ '?' :: (queryText pairs).toList := by
    simp [link]
  rw [hlink, splitOnce?_append hpath]

theorem parse?_link (anchor : Anchor) (hpairs : ∀ pair ∈ pairs, IsPair pair)
    (hown : HasOwn anchor pairs) : parse? (link anchor.path pairs).toList = some anchor := by
  rw [parse?, splitOnce?_link, Option.getD_some]
  cases anchor with
  | symbol index addend size =>
    have hpath : after? "/symbol/" (symbol index addend size).path.toList =
        some (decimal index.toNat).toList := by
      rw [path, String.toList_append, after?_append]
    have haddend : queryNumber? (queryText pairs).toList "addend" 0 signedWord? = some addend :=
      queryNumber?_eq 0 hpairs hown (by decide) (by simp [query]) (signedWord?_signedDecimal addend)
    have hsize : queryNumber? (queryText pairs).toList "size" 0 word? = some size :=
      queryNumber?_eq 0 hpairs hown (by decide) (by simp [query]) (word?_decimal size)
    simp [hpath, haddend, hsize, word?_decimal]
  | address base size =>
    have hpath : after? "/address/" (address base size).path.toList =
        some (decimal base.toNat).toList := by
      rw [path, String.toList_append, after?_append]
    have hsymbol : after? "/symbol/" (address base size).path.toList = none := by
      simp [after?, path]
    have hsize : queryNumber? (queryText pairs).toList "size" 0 word? = some size :=
      queryNumber?_eq 0 hpairs hown (by decide) (by simp [query]) (word?_decimal size)
    simp [hpath, hsymbol, hsize, word?_decimal]

theorem parse_link (anchor : Anchor) (hpairs : ∀ pair ∈ pairs, IsPair pair)
    (hown : HasOwn anchor pairs) : parse (link anchor.path pairs) = .ok anchor := by
  rw [parse, parse?_link anchor hpairs hown]

end Reading

/-! ## Links of anchors -/

section Anchors

variable {pairs : List (String × String)}

theorem isPair_own {key value : String} (hkey : key ∈ ownKeys) (hvalue : '&' ∉ value.toList) :
    IsPair (key, value) := by
  have hall : ∀ key ∈ ownKeys, '=' ∉ key.toList ∧ '&' ∉ key.toList := by decide
  exact ⟨(hall key hkey).1, (hall key hkey).2, hvalue⟩

theorem isPair_of_mem_query {anchor : Anchor} {pair : String × String}
    (h : pair ∈ anchor.query) : IsPair pair := by
  have hunsigned (n : Nat) : '&' ∉ (decimal n).toList := by
    simp [decimal, notMem_toDigits]
  have hsigned (n : Int) : '&' ∉ (signedDecimal n).toList := by
    unfold signedDecimal
    split <;> simp [hunsigned]
  cases anchor with
  | symbol index addend size =>
    rcases List.mem_cons.mp h with rfl | hsize
    · exact isPair_own (by decide) (hsigned _)
    · obtain rfl := List.mem_singleton.mp hsize
      exact isPair_own (by decide) (hunsigned _)
  | address base size =>
    obtain rfl := List.mem_singleton.mp h
    exact isPair_own (by decide) (hunsigned _)

/-- Pairs with other keys may stand anywhere in a query, and its own pairs in any order. -/
theorem hasOwn_of_perm {anchor : Anchor}
    (h : (pairs.filter fun pair => pair.1 ∈ ownKeys).Perm anchor.query) : HasOwn anchor pairs := by
  intro key hkey value
  rw [← h.mem_iff, List.mem_filter]
  simp [hkey]

theorem parse_text (anchor : Anchor) : parse anchor.text = .ok anchor := by
  rw [text_eq_link]
  exact parse_link anchor (fun _ => isPair_of_mem_query) fun _ _ _ => Iff.rfl

/-- Every link is read back as the anchor it was written for, so the link of a relocation target
gives the anchor of the target. The same anchor is read if the pairs of the query are put in another
order, and if pairs with other keys are put among them. -/
theorem links_read_back :
    (∀ anchor : Anchor, anchor.text = link anchor.path anchor.query ∧
      parse anchor.text = .ok anchor) ∧
    (∀ target : RelocTarget, (ofTarget? target).map (fun anchor => parse anchor.text) =
      (ofTarget? target).map .ok) ∧
    ∀ (anchor : Anchor) (pairs : List (String × String)), (∀ pair ∈ pairs, IsPair pair) →
      (pairs.filter fun pair => pair.1 ∈ ownKeys).Perm anchor.query →
        parse (link anchor.path pairs) = .ok anchor := by
  refine ⟨fun anchor => ⟨text_eq_link anchor, parse_text anchor⟩, fun target => ?_, ?_⟩
  · cases ofTarget? target with
    | none => rfl
    | some anchor => rw [Option.map_some, Option.map_some, parse_text]
  · intro anchor pairs hpairs hperm
    exact parse_link anchor hpairs (hasOwn_of_perm hperm)

/-- The own pairs of a link in the other order, among others; the addend is the lowest there is. -/
def shuffledQuery : List (String × String) :=
  [("size", "8"), ("note", "a=b?"), ("addend", "-9223372036854775808"), ("", "")]

theorem shuffled_link_reads_back :
    (∀ pair ∈ shuffledQuery, IsPair pair) ∧
    link "/symbol/3" shuffledQuery = "/symbol/3?size=8&note=a=b?&addend=-9223372036854775808&=" ∧
    parse (link "/symbol/3" shuffledQuery) = .ok (symbol 3 Int64.minValue 8) := by
  have hpairs : ∀ pair ∈ shuffledQuery, IsPair pair := by
    have hall : ∀ pair ∈ shuffledQuery, '=' ∉ pair.1.toList ∧ '&' ∉ pair.1.toList ∧
        '&' ∉ pair.2.toList := by decide
    exact fun pair hpair => ⟨(hall pair hpair).1, (hall pair hpair).2.1, (hall pair hpair).2.2⟩
  refine ⟨hpairs, by decide, ?_⟩
  exact links_read_back.2.2 (symbol 3 Int64.minValue 8) shuffledQuery hpairs (by decide)

end Anchors

end MachInspect.Anchor
