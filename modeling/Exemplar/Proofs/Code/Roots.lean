import Exemplar.Proofs.Code.Nested

/-!
# Names of roots

The definitions of a module that are no nested records are called after
their actions, so their names are known before anything is drafted
(`definedRoots`). They are reserved against nested records, but not against
each other: the names in a module are pairwise different exactly if the
actions that are drafted have pairwise different names
(`serviceModule_roots`). Keys in two spellings of one name are enough to
define a root twice.
-/

namespace Exemplar.Code

open Exemplar.Field

variable {s : ServiceSchema} {b : Block} {before : List Block} {root : Root} {way : List Nat}
  {f : Field} {n : Node} {i : Nat} {es : List (Entry Field)} {a : ActionSchema}

/-! ## Roots among the nodes -/

/-- What stands for no nested record. -/
def Origin.isRoot : Origin → Bool
  | .node n => n.way = []
  | _ => true

theorem isNested_eq (b : Block) : b.isNested = !b.origin.isRoot := by
  cases h : b.origin <;> simp [Block.isNested, Origin.isRoot, h]

/-- The maps in entries stand below the map that the entries are of. -/
theorem way_ne_of_mem_mapsInEntries (h : n ∈ mapsInEntries root way i es) : n.way ≠ way := by
  rw [mapsInEntries_eq] at h
  obtain ⟨p, -, hp⟩ := List.mem_flatMap.mp h
  obtain ⟨w, -, hw, -⟩ := mem_mapsFrom_iff.mp hp
  simp [hw]

/-- **The nodes of a tree** hold its root once, unless that is empty. -/
theorem filter_isRoot_nodesOf : ((nodesOf root f).map Origin.node).filter Origin.isRoot
    = if f.shape = .empty then [] else [.node ⟨root, [], f⟩] := by
  have hnone : ∀ ns : List Node, (∀ n ∈ ns, n.way ≠ []) →
      (ns.map Origin.node).filter Origin.isRoot = [] := by
    intro ns hns
    rw [List.filter_eq_nil_iff]
    intro x hx
    obtain ⟨n, hn, rfl⟩ := List.mem_map.mp hx
    simpa [Origin.isRoot] using hns n hn
  cases f with
  | empty _ => simp [nodesOf, mapsFrom, synonymNode, shape]
  | scalar _ _ => simp [nodesOf, mapsFrom, synonymNode, shape, Origin.isRoot]
  | collection _ e =>
    have hbelow : ∀ n ∈ mapsFrom root ([] ++ [0]) e, n.way ≠ [] := by
      intro n hn
      obtain ⟨w, -, hw, -⟩ := mem_mapsFrom_iff.mp hn
      simp [hw]
    rw [nodesOf, mapsFrom, synonymNode, List.map_append, List.filter_append, hnone _ hbelow]
    simp [Origin.isRoot, shape]
  | map _ es =>
    have hbelow : ∀ n ∈ mapsInEntries root [] 0 es, n.way ≠ [] :=
      fun n hn => way_ne_of_mem_mapsInEntries hn
    rw [nodesOf, mapsFrom, List.map_append, List.map_append, List.filter_append,
      List.filter_append, hnone _ hbelow]
    simp [synonymNode, Origin.isRoot, shape]

/-! ## Names that are given -/

/-- The name of a definition that is no nested record. -/
def Origin.title (s : ServiceSchema) : Origin → String
  | .paging => pagingRecordName
  | .request name => name
  | .node n => (outline s).name n.root

/-- **The names of the roots** that there are definitions for: that of the
requests, and those of the trees that are not empty. -/
def definedRoots (a : ActionSchema) : List String :=
  a.action.requestName :: [Tree.response, Tree.payload].flatMap fun t =>
    (tree? a t).elim [] fun f => if f.shape = .empty then [] else [nameOf a.action t]

/-- **The names that a module is given**: of the record for flattened
positions, if it is needed, and of all roots. -/
def givenNames (s : ServiceSchema) : List String :=
  (if needsPagingRecord s then [pagingRecordName] else []) ++ (rendered s).flatMap definedRoots

/-- A definition that is no nested record has the name that is given to
it. -/
theorem Made.name_eq (h : Made (outline s) before b) (hb : b.isNested = false) :
    b.definition.name = b.origin.title s := by
  cases h with
  | paging => rfl
  | request _ _ => rfl
  | nested _ hw _ _ _ _ => simp [Block.isNested, hw] at hb
  | root _ _ _ _ _ hname _ _ => exact hname
  | synonym _ _ _ => rfl

/-- The names of the roots of an action. -/
theorem map_title_actionContents (hfits : (outline s).Fits i a) :
    ((actionContents i a).filter Origin.isRoot).map (Origin.title s) = definedRoots a := by
  have htree : ∀ t, ((((tree? a t).elim [] (nodesOf ⟨i, t⟩)).map Origin.node).filter
      Origin.isRoot).map (Origin.title s)
        = (tree? a t).elim [] fun f => if f.shape = .empty then [] else [nameOf a.action t] := by
    intro t
    cases tree? a t with
    | none => rfl
    | some f =>
      simp only [Option.elim_some, filter_isRoot_nodesOf]
      split
      · rfl
      · simp [Origin.title, (hfits t).1]
  rw [actionContents, actionNodes, definedRoots, List.filter_cons_of_pos rfl, List.map_cons,
    List.map_flatMap, List.filter_flatMap, List.map_flatMap]
  simp only [htree]
  rfl

/-- **The names of all roots** of a module, in their order. -/
theorem map_title_contents (s : ServiceSchema) :
    ((contents s).filter Origin.isRoot).map (Origin.title s) = givenNames s := by
  have hactions : ((rendered s).zipIdx.flatMap fun p =>
      ((actionContents p.2 p.1).filter Origin.isRoot).map (Origin.title s))
        = (rendered s).flatMap definedRoots := by
    rw [List.flatMap_congr fun p hp => map_title_actionContents (outline_fits s p hp),
      ← List.flatMap_map, List.zipIdx_map_fst]
  rw [givenNames, contents, List.filter_append, List.map_append, List.filter_flatMap,
    List.map_flatMap, hactions]
  cases needsPagingRecord s <;> rfl

/-- **The names of the definitions that are no nested records** are those
that are given. -/
theorem map_name_roots {blocks : List Block} (ho : blocks.map Block.origin = contents s)
    (h : Built (outline s) [] blocks) :
    ((blocks.filter fun b => !b.isNested).map fun b => b.definition.name) = givenNames s := by
  have htitle : ∀ b ∈ blocks.filter fun b => !b.isNested,
      b.definition.name = (Origin.title s ∘ Block.origin) b := by
    intro b hb
    obtain ⟨hmem, hroot⟩ := List.mem_filter.mp hb
    obtain ⟨before, -, hmade⟩ := h.made_of_mem hmem
    exact hmade.name_eq (by simpa using hroot)
  rw [← map_title_contents, ← ho, List.map_congr_left htitle, List.filter_map, List.map_map]
  simp only [isNested_eq, Bool.not_not]
  rfl

/-! ## Names that differ -/

/-- What stands behind the name of an action in the names of its roots. -/
def suffixes : List String := ["Request", "Response", "ResponseAll"]

theorem rootNames_eq (x : Action) : rootNames x = suffixes.map (x.id ++ ·) := rfl

/-- The last character of a name is that of its suffix. -/
theorem getLast?_append {suffix : String} {c : Char} (name : String)
    (h : suffix.toList.getLast? = some c) : (name ++ suffix).toList.getLast? = some c := by
  simp [List.getLast?_append, h]

/-- **Suffixes end differently**, so a name has one of them only. -/
theorem append_suffix_inj {x y suffix suffix' : String} (hs : suffix ∈ suffixes)
    (hs' : suffix' ∈ suffixes) (h : x ++ suffix = y ++ suffix') : x = y ∧ suffix = suffix' := by
  have hlast : ∀ u ∈ suffixes, ∀ v ∈ suffixes,
      u.toList.getLast? = v.toList.getLast? → u = v := by decide +kernel
  have hnonempty : ∀ u ∈ suffixes, ∃ c, u.toList.getLast? = some c := by simp [suffixes]
  obtain ⟨c, hc⟩ := hnonempty suffix hs
  obtain ⟨d, hd⟩ := hnonempty suffix' hs'
  have hcd : some c = some d := by
    rw [← getLast?_append x hc, h, getLast?_append y hd]
  obtain rfl := hlast suffix hs suffix' hs' (by rw [hc, hd, hcd])
  exact ⟨(String.append_left_inj suffix).mp h, rfl⟩

/-- **The names that are reserved for some actions** are pairwise different
if the actions have pairwise different names. -/
theorem nodup_flatMap_rootNames {actions : List ActionSchema}
    (h : (actions.map fun a => a.action.id).Nodup) :
    (actions.flatMap fun a => rootNames a.action).Nodup := by
  refine List.nodup_flatMap.mpr ⟨fun a _ => ?_, ?_⟩
  · rw [rootNames_eq]
    exact List.Nodup.map_on
      (fun u hu v hv heq => (append_suffix_inj hu hv heq).2) (by decide)
  · refine (List.pairwise_map.mp h).imp ?_
    intro a b hab name hname hname'
    simp only [rootNames_eq, List.mem_map] at hname hname'
    obtain ⟨u, hu, rfl⟩ := hname
    obtain ⟨v, hv, heq⟩ := hname'
    exact hab (append_suffix_inj hv hu heq).1.symm

/-- The record for flattened positions is called like no root. -/
theorem pagingRecordName_not_mem_rootNames (x : Action) : pagingRecordName ∉ rootNames x := by
  rw [rootNames_eq, List.mem_map]
  rintro ⟨suffix, hs, heq⟩
  have hends : ∀ u ∈ suffixes, u.toList.getLast? = some 't' ∨ u.toList.getLast? = some 'e'
      ∨ u.toList.getLast? = some 'l' := by simp [suffixes]
  have hpaging : pagingRecordName.toList.getLast? = some 'g' := by simp [pagingRecordName]
  rw [← heq] at hpaging
  rcases hends suffix hs with h | h | h
  all_goals
    rw [getLast?_append x.id h] at hpaging
    simp at hpaging

/-- The roots that there are definitions for are among those that names are
reserved for. -/
theorem definedRoots_sublist (a : ActionSchema) :
    List.Sublist (definedRoots a) (rootNames a.action) := by
  have htree : ∀ t, List.Sublist ((tree? a t).elim [] fun f =>
      if f.shape = .empty then [] else [nameOf a.action t]) [nameOf a.action t] := by
    intro t
    cases tree? a t with
    | none => exact List.nil_sublist _
    | some f =>
      rw [Option.elim_some]
      split
      · exact List.nil_sublist _
      · exact List.Sublist.refl _
  refine List.Sublist.cons_cons _ ?_
  simpa [nameOf] using (htree .response).append (htree .payload)

theorem flatMap_definedRoots_sublist (actions : List ActionSchema) :
    List.Sublist (actions.flatMap definedRoots) (actions.flatMap fun a => rootNames a.action) := by
  induction actions with
  | nil => exact List.Sublist.refl _
  | cons a actions ih => exact (definedRoots_sublist a).append ih

/-- Every action has a definition for its requests. -/
theorem map_requestName_sublist (actions : List ActionSchema) :
    List.Sublist (actions.map fun a => a.action.requestName)
      (actions.flatMap definedRoots) := by
  induction actions with
  | nil => exact List.nil_sublist _
  | cons a actions ih =>
    exact List.Sublist.cons_cons _ (List.Sublist.append (List.nil_sublist _) ih)

/-- **The names that are given in a module** are pairwise different exactly
if its actions have pairwise different names. -/
theorem nodup_givenNames_iff (s : ServiceSchema) :
    (givenNames s).Nodup ↔ ((rendered s).map fun a => a.action.id).Nodup := by
  constructor
  · intro h
    have hrequests : ((rendered s).map fun a => a.action.requestName).Nodup :=
      (map_requestName_sublist _).nodup (List.Nodup.of_append_right h)
    exact List.Nodup.of_map (· ++ "Request") (by rwa [List.map_map])
  · intro h
    have hsub := flatMap_definedRoots_sublist (rendered s)
    refine List.Nodup.append (by split <;> simp) (hsub.nodup (nodup_flatMap_rootNames h)) ?_
    intro name hname hname'
    obtain ⟨a, -, ha⟩ := List.mem_flatMap.mp (hsub.subset hname')
    obtain rfl : name = pagingRecordName := by
      split at hname <;> simp_all
    exact pagingRecordName_not_mem_rootNames a.action ha

/-! ## Names of a module -/

/-- **Names of the roots of a module.** In a module that can be drafted, the
definitions that are no nested records have the names that are given by the
actions. All names in the module are pairwise different exactly if the
actions that are drafted have pairwise different names. -/
theorem serviceModule_roots (s : ServiceSchema) (draft after : Draft.State) (text : String)
    (h : (serviceModule s).perform draft = (.ok text, after)) :
    ∃ blocks : List Block, text = moduleText s.service (blocks.map Block.definition)
      ∧ blocks.map Block.origin = contents s
      ∧ ((blocks.filter fun b => !b.isNested).map fun b => b.definition.name) = givenNames s
      ∧ ((blocks.map fun b => b.definition.name).Nodup
        ↔ ((rendered s).map fun a => a.action.id).Nodup) := by
  obtain ⟨blocks, htext, -, ho, hnamed, hbuilt⟩ := serviceModule_built h
  have hroots := map_name_roots ho hbuilt
  refine ⟨blocks, htext, ho, hroots, ?_⟩
  have hsplit : (nestedNames blocks ++ givenNames s).Perm
      (blocks.map fun b => b.definition.name) := by
    rw [← hroots, nestedNames, ← List.map_append]
    exact (List.filter_append_perm _ _).map _
  have hapart : List.Disjoint (nestedNames blocks) (givenNames s) := by
    intro name hnested hgiven
    rcases List.mem_append.mp hgiven with hgiven | hgiven
    · cases hneeds : needsPagingRecord s with
      | false => simp [hneeds] at hgiven
      | true =>
        obtain rfl : name = pagingRecordName := by simpa [hneeds] using hgiven
        exact hnamed.paging hneeds hnested
    · obtain ⟨a, ha, hgiven⟩ := List.mem_flatMap.mp hgiven
      exact hnamed.root a ha name hnested ((definedRoots_sublist a).subset hgiven)
  rw [← hsplit.nodup_iff, ← nodup_givenNames_iff]
  exact ⟨List.Nodup.of_append_right, fun h => hnamed.nodup.append h hapart⟩

/-- Two actions with different names share none. -/
theorem serviceModule_roots_search :
    let response : Field :=
      .map (.str "SearchResponse") [⟨"total", .str "Total", .scalar (.str "Total") .number, true⟩]
    let s : ServiceSchema :=
      { service := { path := .str "api/issues" }
        actions := [{ action := { key := .str "search" }, response },
          { action := { key := .str "tags" } }] }
    ∃ text after, (serviceModule s).perform {} = (.ok text, after)
      ∧ givenNames s = ["SearchRequest", "SearchResponse", "TagsRequest"]
      ∧ ((rendered s).map fun a => a.action.id).Nodup
      ∧ ∃ blocks : List Block, text = moduleText s.service (blocks.map Block.definition)
        ∧ blocks.map Block.origin = contents s
        ∧ ((blocks.filter fun b => !b.isNested).map fun b => b.definition.name) = givenNames s
        ∧ ((blocks.map fun b => b.definition.name).Nodup
          ↔ ((rendered s).map fun a => a.action.id).Nodup) := by
  intro response s
  refine ⟨_, _, rfl, ?_, ?_, serviceModule_roots s {} _ _ rfl⟩ <;> decide +kernel

/-- Two spellings of one name define the request and the response twice, and
the second response is another record than the first. -/
theorem serviceModule_redefines_search_all :
    let response (e : Entry Field) : Field := .map (.str "SearchAllResponse") [e]
    let s : ServiceSchema :=
      { service := { path := .str "api/issues" }
        actions := [
          { action := { key := .str "search_all" }
            response := response ⟨"total", .str "Total", .scalar (.str "Total") .number, true⟩ },
          { action := { key := .str "searchAll" }
            response := response ⟨"name", .str "Name", .scalar (.str "Name") .string, true⟩ }] }
    ∃ definitions after,
      (serviceModule s).perform {} = (.ok (moduleText s.service definitions), after)
      ∧ definitions.map Definition.name = ["SearchAllRequest", "SearchAllResponse",
        "SearchAllRequest", "SearchAllResponse"]
      ∧ definitions[1]? ≠ definitions[3]? := by
  intro response s
  refine ⟨_, _, rfl, ?_, ?_⟩ <;> decide +kernel

end Exemplar.Code
