import Exemplar.Proofs.Override

/-!
# Rules by their address

What a path finds in a view can be kept in an index of two levels, by endpoint and
action and then by path, to which the rules are added one by one (`Index.add`). It
answers every look-up as the registry does (`lookup_index`): a rule that is added goes
behind those with its address and is not seen from any other. So the rules that a path
finds are those with its address, in the order in which they were given
(`lookup_view`), and the first one of a kind says what becomes of the field
(`DecidedBy`).
-/

namespace Exemplar.OverrideRegistry

/-! ## Entries of an index -/

section Entries

variable {κ ν : Type} [DecidableEq κ] {missing : ν} {k k' : κ} {f : ν → ν} {index : List (κ × ν)}

/-- **The entry of a key**, or what stands for a missing one. -/
def entry (missing : ν) (k : κ) : List (κ × ν) → ν
  | [] => missing
  | (k', v) :: index => if k' = k then v else entry missing k index

/-- An index with the entry of a key changed; a key that is missing comes last. -/
def change (missing : ν) (k : κ) (f : ν → ν) : List (κ × ν) → List (κ × ν)
  | [] => [(k, f missing)]
  | (k', v) :: index => if k' = k then (k', f v) :: index else (k', v) :: change missing k f index

/-- **A change is seen** at its key, and nowhere else. -/
theorem entry_change : entry missing k' (change missing k f index)
    = if k = k' then f (entry missing k index) else entry missing k' index := by
  fun_induction change missing k f index with
  | case1 => rfl
  | case2 v index =>
    simp only [entry, if_true]
    split <;> rfl
  | case3 key v index hne ih =>
    simp only [entry, ih, if_neg hne]
    by_cases hk : k = k'
    · rw [if_pos hk, if_pos hk, if_neg (hk ▸ hne)]
    · rw [if_neg hk, if_neg hk]

end Entries

/-! ## The index of a registry -/

/-- **A rule is addressed** to a path of an action. -/
def IsAt (endpoint action path : Json) (r : OverrideRule) : Prop :=
  (r.endpoint.key, r.action.key) = (endpoint.key, action.key) ∧ r.path.key = path.key

instance (endpoint action path : Json) : DecidablePred (IsAt endpoint action path) :=
  fun _ => inferInstanceAs (Decidable (_ ∧ _))

/-- The address of a rule in texts. -/
theorem isAt_str_iff {e a p : String} {r : OverrideRule} : IsAt (.str e) (.str a) (.str p) r ↔
    r.endpoint = .str e ∧ r.action = .str a ∧ r.path = .str p := by
  simp only [IsAt, Prod.mk.injEq, Json.key_str, Json.key_eq_str_iff, and_assoc]

/-- **What a path finds** in a view: the rules with its address, in their order. -/
theorem lookup_view (g : OverrideRegistry) (endpoint action path : Json) :
    (g.view endpoint action).lookup path = g.given.filter (IsAt endpoint action path) := by
  rw [OverrideView.lookup, view, List.filter_filter]
  refine List.filter_congr fun r _ => ?_
  rw [Bool.and_comm, ← Bool.decide_and]
  exact decide_eq_decide.mpr (by simp only [IsAt, Prod.mk.injEq])

/-- **An index of rules**: by endpoint and action the paths, and by path the rules. -/
abbrev Index := List ((Json × Json) × List (Json × List OverrideRule))

namespace Index

/-- The rules addressed to a path of an action. -/
def lookup (index : Index) (endpoint action path : Json) : List OverrideRule :=
  entry [] path.key (entry [] (endpoint.key, action.key) index)

/-- A rule goes behind those with its address. -/
def add (index : Index) (r : OverrideRule) : Index :=
  change [] (r.endpoint.key, r.action.key) (change [] r.path.key (· ++ [r])) index

/-- A rule that is added is found at its address only. -/
theorem lookup_add (index : Index) (r : OverrideRule) (endpoint action path : Json) :
    (index.add r).lookup endpoint action path
      = index.lookup endpoint action path ++ [r].filter (IsAt endpoint action path) := by
  unfold lookup add
  rw [entry_change]
  by_cases hscope : (r.endpoint.key, r.action.key) = (endpoint.key, action.key)
  · rw [if_pos hscope, entry_change, hscope]
    by_cases hpath : r.path.key = path.key
    · have hat : IsAt endpoint action path r := ⟨hscope, hpath⟩
      simp [hpath, hat]
    · have hnot : ¬ IsAt endpoint action path r := fun h => hpath h.2
      simp [hpath, hnot]
  · have hnot : ¬ IsAt endpoint action path r := fun h => hscope h.1
    simp [hscope, hnot]

/-- **Rules that are added one by one** are found in their order. -/
theorem lookup_foldl_add (rules : List OverrideRule) (index : Index)
    (endpoint action path : Json) :
    (rules.foldl add index).lookup endpoint action path
      = index.lookup endpoint action path ++ rules.filter (IsAt endpoint action path) := by
  induction rules generalizing index with
  | nil => simp
  | cons r rules ih =>
    rw [List.foldl_cons, ih, lookup_add, List.append_assoc, ← List.filter_append,
      List.singleton_append]

end Index

/-- **The index of a registry**, its rules added one by one. -/
def index (g : OverrideRegistry) : Index := g.given.foldl Index.add []

/-- **The index answers every look-up** as the views of the registry do. -/
theorem lookup_index (g : OverrideRegistry) (endpoint action path : Json) :
    g.index.lookup endpoint action path = (g.view endpoint action).lookup path := by
  rw [lookup_view, index, Index.lookup_foldl_add]
  rfl

/-! ## Good rules -/

/-- **A good rule**: one that is made as it is, and whose address consists of texts. -/
structure Good (r : OverrideRule) : Prop where
  made : r.make = .ok r
  texts : ∀ part ∈ [r.endpoint, r.action, r.path], ∃ s, part = .str s

/-- A good rule has nothing wrong with it. -/
theorem Good.flaw?_eq_none {r : OverrideRule} (h : Good r) : r.flaw? = none := by
  have hmade := h.made
  unfold OverrideRule.make at hmade
  cases hflaw : r.flaw? with
  | none => rfl
  | some flaw =>
    rw [hflaw] at hmade
    nomatch hmade

/-- A rule addressed by texts is good if nothing is wrong with it. -/
theorem good_of {e a p : String} {kind : OverrideKind} {value : Json}
    (h : (OverrideRule.of e a p kind value).flaw?.isNone = true) :
    Good (OverrideRule.of e a p kind value) where
  made := by rw [OverrideRule.make, Option.isNone_iff_eq_none.mp h]
  texts := by simp [OverrideRule.of]

/-- **A good rule as a document** gives the rule again. -/
theorem Good.usable_toJson {r : OverrideRule} (h : Good r) : Usable r.toJson r where
  made := by
    have hkind : OverrideKind.ofJson? (.str r.kind.word) = some r.kind := by
      cases r.kind <;> decide
    simp [OverrideRule.toJson, OverrideRule.ofJson, Json.find?, hkind, h.made]
  flat part hpart := by
    obtain ⟨s, rfl⟩ := h.texts part hpart
    rfl

/-! ## What rules say -/

/-- **The first rule of a kind** among some rules. -/
def FirstOf (kind : OverrideKind) (rules : List OverrideRule) (r : OverrideRule) : Prop :=
  ∃ before behind, rules = before ++ r :: behind ∧ r.kind = kind ∧ ∀ x ∈ before, x.kind ≠ kind

/-- A path asks the first rule of a kind that it finds. -/
theorem first?_eq_some_iff {v : OverrideView} {path : Json} {kind : OverrideKind}
    {r : OverrideRule} : v.first? path kind = some r ↔ FirstOf kind (v.lookup path) r := by
  rw [OverrideView.first?, List.find?_eq_some_iff_append]
  constructor
  · rintro ⟨hkind, before, behind, heq, hbefore⟩
    exact ⟨before, behind, heq, of_decide_eq_true hkind, fun x hx => by simpa using hbefore x hx⟩
  · rintro ⟨before, behind, heq, hkind, hbefore⟩
    exact ⟨decide_eq_true hkind, before, behind, heq, fun x hx => by simpa using hbefore x hx⟩

/-- **What a view says of a path** is up to the first rule of each kind among some
rules, and the one that forces a kind always names it. -/
structure DecidedBy (v : OverrideView) (path : Json) (rules : List OverrideRule) : Prop where
  isSkipped_iff : v.isSkipped path = true ↔ ∃ r, FirstOf .skip rules r
  isOptional_iff : v.isOptional path = true ↔ ∃ r, FirstOf .optional rules r
  renamed_iff : ∀ name, v.renamed? path = some name ↔ ∃ r, FirstOf .rename rules r ∧ r.value = name
  forcedKind_iff : ∀ k, v.forcedKind? path = some k ↔
    ∃ r, FirstOf .forceType rules r ∧ Kind.ofToken? r.value = some k
  exists_forcedKind : ∀ r, FirstOf .forceType rules r → ∃ k, v.forcedKind? path = some k

/-- **The rules that a path finds** decide what becomes of it, if they are good. -/
theorem decidedBy_lookup {v : OverrideView} {path : Json} (h : ∀ r ∈ v.lookup path, Good r) :
    DecidedBy v path (v.lookup path) := by
  have hforced : ∀ k, v.forcedKind? path = some k ↔
      ∃ r, FirstOf .forceType (v.lookup path) r ∧ Kind.ofToken? r.value = some k := by
    intro k
    rw [OverrideView.forcedKind?, Option.bind_eq_some_iff]
    refine exists_congr fun r => ?_
    rw [first?_eq_some_iff]
    refine and_congr_right fun ⟨_, _, _, hkind, _⟩ => ?_
    rw [OverrideRule.forcedKind?, if_pos hkind]
  refine ⟨?_, ?_, fun name => ?_, hforced, fun r hr => ?_⟩
  · simp only [OverrideView.isSkipped, Option.isSome_iff_exists, first?_eq_some_iff]
  · simp only [OverrideView.isOptional, Option.isSome_iff_exists, first?_eq_some_iff]
  · simp only [OverrideView.renamed?, Option.map_eq_some_iff, first?_eq_some_iff]
  · obtain ⟨before, behind, heq, hkind, hbefore⟩ := hr
    have hgood : Good r := h r (heq ▸ List.mem_append_right _ List.mem_cons_self)
    obtain ⟨k, hk⟩ := OverrideRule.exists_forcedKind hgood.flaw?_eq_none hkind
    exact ⟨k, (hforced k).mpr ⟨r, ⟨before, behind, heq, hkind, hbefore⟩, hk⟩⟩

end Exemplar.OverrideRegistry
