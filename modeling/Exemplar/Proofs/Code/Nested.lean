import Exemplar.Proofs.Code.Blocks
import Exemplar.Proofs.Code.Drafting
import Exemplar.Proofs.Code.Names

/-!
# Nested records

The maps below the root of a tree become nested records. Three things hold
of them in every module that can be drafted at all
(`serviceModule_nested`). There is one for each such map. No two of them
have one name, and none is called like a root of any action or like the
record for flattened positions. And whatever a definition mentions is
defined before it, by the record of the very map that is meant: an
annotation never binds to the record of another map that happens to look
alike.
-/

namespace Exemplar.Code

open Exemplar.Field

variable {before before' : List Block} {n : Node} {t : TypeExpr} {p : Entry Field × Nat}
  {es : List (Entry Field)} {f : Field} {root : Root} {way : List Nat} {i : Nat}
  {st st' : Draft.State} {o : Outline}

/-! ## Drafting a field -/

/-- **What the draft of a field adds**: the records of the maps in it, and a
type that stands for it. -/
def AddsMaps (f : Field) : Prop :=
  ∀ (o : Outline) (name : String) (root : Root) (way : List Nat) (st st' : Draft.State)
    (t : TypeExpr) (records : List Record), way ≠ [] →
    (typeOf name f).perform st = (.ok (t, records), st') →
    ∃ blocks : List Block, blocks.map Block.definition = records.map .record
      ∧ blocks.map Block.origin = (mapsFrom root way f).map .node
      ∧ Adds o [] st st' blocks ∧ StandsFor blocks ⟨root, way, f⟩ t

theorem listed_cons (i : Nat) (e : Entry Field) (es : List (Entry Field)) :
    listed i (e :: es)
      = if e.field.shape = .empty then listed (i + 1) es else (e, i) :: listed (i + 1) es := by
  by_cases h : e.field.shape = .empty <;> simp [listed, List.zipIdx_cons, h]

/-- There are no maps in an empty field. -/
theorem mapsFrom_of_empty (hf : f.shape = .empty) : mapsFrom root way f = [] := by
  cases f <;> simp_all [mapsFrom, shape]

/-- **What the draft of some entries adds**: the records of the maps in
them, and a member for each. -/
theorem membersOf_adds (hes : ∀ e ∈ es, AddsMaps e.field) {owner : String}
    {seen : List (String × Json)} {members : List Member} {records : List Record} (n : Node)
    (h : (membersOf owner seen es).perform st = (.ok (members, records), st')) :
    ∃ blocks : List Block, blocks.map Block.definition = records.map .record
      ∧ blocks.map Block.origin = (mapsInEntries n.root n.way i es).map .node
      ∧ Adds o [] st st' blocks ∧ List.Forall₂ (MemberFor blocks n) (listed i es) members := by
  induction es generalizing i seen members records st with
  | nil =>
    obtain ⟨rfl, rfl, rfl⟩ := membersOf_nil_eq_ok h
    exact ⟨[], rfl, rfl, .nil (List.Subset.refl _), .nil⟩
  | cons e es ih =>
    have hrest : ∀ d ∈ es, AddsMaps d.field := fun d hd => hes d (List.mem_cons_of_mem e hd)
    rw [listed_cons, mapsInEntries_cons]
    by_cases hempty : e.field.shape = .empty
    · rw [membersOf_cons_of_empty hempty] at h
      rw [if_pos hempty, mapsFrom_of_empty hempty]
      exact ih hrest h
    · obtain ⟨name, t, first, u, more, later, hname, -, hfirst, hmore, rfl, rfl⟩ :=
        membersOf_cons_eq_ok hempty h
      obtain ⟨xs, hxd, hxo, hx, ht⟩ := hes e List.mem_cons_self o _ n.root (n.way ++ [i]) _ _ _ _
        (by simp) hfirst
      obtain ⟨ys, hyd, hyo, hy, hm⟩ := @ih (i + 1) _ hrest _ _ _ hmore
      refine ⟨xs ++ ys, by simp [hxd, hyd], by simp [hxo, hyo],
        hx.append (hy.mono (List.nil_subset _)), ?_⟩
      rw [if_neg hempty]
      refine .cons ?_ (hm.imp fun _ _ h => h.mono (List.subset_append_right xs ys))
      exact ⟨⟨name, hname, rfl⟩, ht.mono (List.subset_append_left xs ys)⟩

/-- The attribute of a member has the name that the member is given. -/
theorem name_toAttribute_ofEntry (e : Entry Field) (t : TypeExpr) (name : String) :
    (Member.ofEntry e t name).toAttribute.name = name := by
  unfold Member.ofEntry
  dsimp only
  split <;> rfl

/-- **The attributes of members that are drafted** have different names, none of
which was given before. -/
theorem membersOf_nodup {owner : String} {seen : List (String × Json)} {members : List Member}
    {records : List Record}
    (h : (membersOf owner seen es).perform st = (.ok (members, records), st')) :
    (members.map fun m => m.toAttribute.name).Nodup
      ∧ ∀ m ∈ members, seen.lookup m.toAttribute.name = none := by
  induction es generalizing seen members records st with
  | nil =>
    obtain ⟨rfl, rfl, rfl⟩ := membersOf_nil_eq_ok h
    exact ⟨List.nodup_nil, fun m hm => absurd hm List.not_mem_nil⟩
  | cons e es ih =>
    by_cases hempty : e.field.shape = .empty
    · rw [membersOf_cons_of_empty hempty] at h
      exact ih h
    · obtain ⟨name, t, _, _, more, _, -, hseen, -, hmore, rfl, -⟩ := membersOf_cons_eq_ok hempty h
      obtain ⟨hnodup, hfree⟩ := ih hmore
      have hother : ∀ m ∈ more, m.toAttribute.name ≠ name
          ∧ seen.lookup m.toAttribute.name = none := by
        intro m hm
        have hlookup := hfree m hm
        rw [List.lookup_append, Option.or_eq_none_iff] at hlookup
        refine ⟨?_, hlookup.1⟩
        rintro rfl
        simp at hlookup
      rw [List.map_cons, List.nodup_cons, name_toAttribute_ofEntry, List.forall_mem_cons,
        name_toAttribute_ofEntry]
      refine ⟨⟨fun hmem => ?_, hnodup⟩, hseen, fun m hm => (hother m hm).2⟩
      obtain ⟨m, hm, hname⟩ := List.mem_map.mp hmem
      exact (hother m hm).1 hname

/-- So the attributes of a record have different names. -/
theorem nodup_names_of_membersOf {owner : String} {members : List Member} {records : List Record}
    (h : (membersOf owner [] es).perform st = (.ok (members, records), st')) :
    ((members.map Member.toAttribute).map Attribute.name).Nodup := by
  rw [List.map_map]
  exact (membersOf_nodup h).1

/-- **Drafting a field** adds the records of the maps in it, and gives a
type that stands for it. -/
theorem addsMaps (f : Field) : AddsMaps f := by
  induction f with
  | empty own =>
    intro o name root way st st' t records _ h
    rw [typeOf, Effect.perform_pure_eq_ok_iff, Prod.mk.injEq] at h
    obtain ⟨⟨rfl, rfl⟩, rfl⟩ := h
    exact ⟨[], rfl, rfl, .nil (List.Subset.refl _), .empty⟩
  | scalar own kind =>
    intro o name root way st st' t records _ h
    rw [typeOf, Effect.perform_pure_eq_ok_iff, Prod.mk.injEq] at h
    obtain ⟨⟨rfl, rfl⟩, rfl⟩ := h
    exact ⟨[], rfl, rfl, .nil (List.Subset.refl _), .scalar⟩
  | collection own e ih =>
    intro o name root way st st' t records _ h
    obtain ⟨item, hinner, rfl⟩ := typeOf_collection_eq_ok h
    obtain ⟨blocks, hd, ho, ha, ht⟩ := ih o name root (way ++ [0]) _ _ _ _ (by simp) hinner
    exact ⟨blocks, hd, ho, ha, .collection ht⟩
  | map own es ih =>
    intro o name root way st st' t records hway h
    obtain ⟨u, members, inner, htaken, hmembers, rfl, rfl⟩ := typeOf_map_eq_ok h
    obtain ⟨blocks, hd, ho, ha, hm⟩ := membersOf_adds (o := o) ih ⟨root, way, .map own es⟩ hmembers
    set b : Block := ⟨.node ⟨root, way, .map own es⟩,
      .record (nestedRecord (freshName st.taken name) own members)⟩ with hb
    have hmade : Made o ([] ++ blocks) b :=
      .nested rfl hway hm rfl (nodup_names_of_membersOf hmembers) rfl
    refine ⟨blocks ++ [b], by simp [hd, hb], by simp [ho, hb, mapsFrom], ?_, ?_⟩
    · exact ha.nested (by simp [hb, Block.isNested, hway]) (freshName_not_mem st.taken name) htaken
        hmade
    · exact .map hway (List.mem_append_right blocks (List.mem_singleton_self b))

/-! ## Drafting a root -/

/-- **An accessor made for a nested source** reads what is called after the accessor of
the source, and has the type of the member with that accessor. -/
theorem pagingAccessor_nested_eq_ok {members : List Member} {key : Json} {field : Field}
    {accessor : PagingAccessor} (h : pagingAccessor members (.nested key field) = .ok accessor) :
    ∃ name, Naming.snakeOf key = .ok name
      ∧ accessor = .nested ((members.find? (·.accessor = key)).elim .any Member.type) name := by
  cases hname : Naming.snakeOf key with
  | error e => simp [pagingAccessor, hname, bind, Except.bind] at h
  | ok name =>
    simp only [pagingAccessor, hname, bind, Except.bind, pure, Except.pure, Except.ok.injEq] at h
    exact ⟨name, rfl, h.symm⟩

/-- One made for a flattened source reads what is called after its three accessors. -/
theorem pagingAccessor_flattened_eq_ok {members : List Member} {index size total : Json}
    {accessor : PagingAccessor}
    (h : pagingAccessor members (.flattened index size total) = .ok accessor) :
    ∃ a b c, Naming.snakeOf index = .ok a ∧ Naming.snakeOf size = .ok b
      ∧ Naming.snakeOf total = .ok c ∧ accessor = .flattened a b c := by
  cases ha : Naming.snakeOf index <;> cases hb : Naming.snakeOf size <;>
    cases hc : Naming.snakeOf total <;>
    simp [pagingAccessor, ha, hb, hc, bind, Except.bind, pure, Except.pure] at h
  exact ⟨_, _, _, rfl, rfl, rfl, h.symm⟩

/-- **What a paging accessor refers to** is a member of the record that it
is given with. -/
theorem refers_of_pagingAccessor {base : List Block} {members : List Member}
    {source : PagingSource} {accessor : PagingAccessor}
    (h : pagingAccessor members source = .ok accessor)
    (hm : List.Forall₂ (MemberFor before n) (listed 0 es) members)
    (hpaging : source.isNested = false → pagingBlock ∈ base) :
    Refers (base ++ before) n es accessor := by
  cases source with
  | nested key field =>
    obtain ⟨name, hname, rfl⟩ := pagingAccessor_nested_eq_ok h
    cases hfind : members.find? (·.accessor = key) with
    | none => exact .inl rfl
    | some m =>
      obtain ⟨p, hp, hpm⟩ := exists_of_mem_right hm (List.mem_of_find?_eq_some hfind)
      have hkey : p.1.accessor = key := by
        rw [← hpm.accessor_eq]
        simpa using List.find?_some hfind
      exact .inr ⟨p, hp, hkey ▸ hname,
        hpm.type.mono (List.subset_append_right base before)⟩
  | flattened index size total =>
    obtain ⟨_, _, _, -, -, -, rfl⟩ := pagingAccessor_flattened_eq_ok h
    exact List.mem_append_left before (hpaging rfl)

/-- Of a source that there may be, a paging accessor is made for it. -/
theorem mapM_pagingAccessor_eq_ok {members : List Member} {source : Option PagingSource}
    {paging : Option PagingAccessor}
    (h : source.mapM (pagingAccessor members) = .ok paging) :
    paging.isSome = source.isSome
      ∧ ∀ accessor ∈ paging, ∃ p ∈ source, pagingAccessor members p = .ok accessor := by
  cases source with
  | none =>
    obtain rfl := Except.ok.inj h
    simp
  | some p =>
    rw [Option.mapM_some] at h
    cases hacc : pagingAccessor members p with
    | error e => simp [hacc, Functor.map, Except.map] at h
    | ok a =>
      obtain rfl : some a = paging := by simpa [hacc, Functor.map, Except.map] using h
      simp [hacc]

/-- **Drafting a root** adds a block for each node of its tree, as it is set
out. -/
theorem rootOf_adds (base : List Block) {name description : String}
    {source : Option PagingSource} {definitions : List Definition} (root : Root)
    (h : (rootOf name description source f).perform st = (.ok definitions, st'))
    (hname : o.name root = name) (hsource : o.source root = source)
    (hpaging : ∀ p ∈ source, p.isNested = false → pagingBlock ∈ base) :
    ∃ blocks : List Block, blocks.map Block.definition = definitions
      ∧ blocks.map Block.origin = (nodesOf root f).map .node ∧ Adds o base st st' blocks := by
  subst hname hsource
  cases f with
  | empty own =>
    rw [rootOf, Effect.perform_pure_eq_ok_iff] at h
    obtain ⟨rfl, rfl⟩ := h
    exact ⟨[], rfl, rfl, .nil (List.Subset.refl _)⟩
  | scalar own kind =>
    obtain ⟨htaken, rfl⟩ := rootOf_scalar_eq_ok h
    refine ⟨[⟨.node ⟨root, [], .scalar own kind⟩, _⟩], rfl, rfl, .singleton rfl ?_ ?_⟩
    · exact .synonym (n := ⟨root, [], .scalar own kind⟩) rfl (by simp [shape]) .scalar
    · rw [htaken]
      exact List.subset_cons_self _ st.taken
  | collection own e =>
    obtain ⟨u, t, records, htaken, htype, rfl⟩ := rootOf_collection_eq_ok h
    obtain ⟨blocks, hd, ho, ha, ht⟩ := addsMaps e o _ root [0] _ _ _ _ (by simp) htype
    refine ⟨blocks ++ [⟨.node ⟨root, [], .collection own e⟩,
      .synonym (o.name root) description (.list t)⟩],
      by simp [hd], by simp [ho, nodesOf, synonymNode, mapsFrom], ?_⟩
    have hsub : st.taken ⊆ u.taken := htaken ▸ List.subset_cons_self _ _
    have hkept : Adds o base st _ ([] ++ blocks) :=
      Adds.append (.nil hsub) (ha.mono (List.nil_subset _))
    have hitem : StandsFor (base ++ blocks) ⟨root, [] ++ [0], e⟩ t :=
      ht.mono (List.subset_append_right base blocks)
    refine hkept.append (.singleton rfl ?_ (List.Subset.refl _))
    exact .synonym (n := ⟨root, [], .collection own e⟩) rfl (by simp [shape])
      (.collection hitem)
  | map own es =>
    obtain ⟨u, members, records, paging, htaken, hmembers, hp, rfl⟩ := rootOf_map_eq_ok h
    obtain ⟨blocks, hd, ho, ha, hm⟩ := membersOf_adds (i := 0) (o := o)
      (fun e _ => addsMaps e.field) ⟨root, [], .map own es⟩ hmembers
    obtain ⟨-, haccessor⟩ := mapM_pagingAccessor_eq_ok hp
    refine ⟨blocks ++ [⟨.node ⟨root, [], .map own es⟩, .record (Record.mk (o.name root)
      description (members.map Member.toAttribute) paging)⟩], by simp [hd],
      by simp [ho, nodesOf, synonymNode, mapsFrom], ?_⟩
    have hsub : st.taken ⊆ u.taken := htaken ▸ List.subset_cons_self _ _
    have hkept : Adds o base st _ ([] ++ blocks) :=
      Adds.append (.nil hsub) (ha.mono (List.nil_subset _))
    have hdistinct := nodup_names_of_membersOf hmembers
    have hmembers : List.Forall₂ (MemberFor (base ++ blocks) ⟨root, [], .map own es⟩)
        (listed 0 es) members :=
      hm.imp fun _ _ h => h.mono (List.subset_append_right base blocks)
    refine hkept.append (.singleton rfl ?_ (List.Subset.refl _))
    refine .root rfl rfl hmembers rfl hdistinct rfl hp ?_
    intro accessor hmem
    obtain ⟨p, hp, hacc⟩ := haccessor accessor hmem
    exact refers_of_pagingAccessor hacc hm (hpaging p hp)

/-! ## Drafting an action -/

/-- **A record for requests** has the parameters of its action for
attributes. -/
theorem exists_request_eq {a : Action} {r : Record} (h : a.request = .ok r) : ∃ description,
    r = ⟨a.requestName, description, a.requestParams.map Param.toAttribute, none⟩ := by
  unfold Action.request at h
  cases hdescription : a.requestDescription with
  | error e => simp [hdescription, bind, Except.bind] at h
  | ok description =>
    simp only [hdescription, bind, Except.bind] at h
    cases hshared : Action.sharedName? [] (a.requestParams.map fun p => (p.attributeName, p.key))
      with
    | some shared => simp [hshared] at h
    | none =>
      rw [hshared] at h
      exact ⟨description, (Except.ok.inj h).symm⟩

/-- What is said of a parameter is a comment. -/
theorem commented_toAttribute (p : Param) : p.toAttribute.Commented := by
  intro c (hc : c ∈ p.comments)
  rw [Param.comments, List.mem_append] at hc
  rcases hc with hc | hc
  · rw [List.mem_singleton.mp (List.mem_ite_nil_left.mp hc).2]
    exact ⟨_, rfl⟩
  · obtain ⟨l, -, rfl⟩ := List.mem_map.mp hc
    exact ⟨String.ofList (Text.strip l), by simp [ToString.toString]⟩

/-- It is called so, mentions no other record, has comments above its attributes if anything
at all, and gives no position in the pages. -/
theorem request_eq_ok {a : Action} {r : Record} (h : a.request = .ok r) :
    r.name = a.requestName ∧ (Definition.record r).mentions = []
      ∧ (Definition.record r).Commented ∧ r.paging = none := by
  have hparam : ∀ p : Param, p.toAttribute.mentions = [] := by
    intro p
    by_cases hp : p.required.truthy = true <;>
      simp [Param.toAttribute, Attribute.mentions, TypeExpr.names, Initial.names, hp]
  obtain ⟨description, rfl⟩ := exists_request_eq h
  refine ⟨rfl, by simp [Definition.mentions, hparam], fun x hx => ?_, rfl⟩
  obtain ⟨p, -, rfl⟩ := List.mem_map.mp hx
  exact commented_toAttribute p

/-- What is set out fits an action, which has a number. -/
def Outline.Fits (o : Outline) (i : Nat) (a : ActionSchema) : Prop :=
  ∀ t, o.name ⟨i, t⟩ = nameOf a.action t ∧ o.source ⟨i, t⟩ = sourceOf? a t

/-- Drafting the payload adds a block for each node of it. -/
theorem payloadDefinitions_adds (base : List Block) {a : ActionSchema}
    {definitions : List Definition} (i : Nat)
    (h : (payloadDefinitions a).perform st = (.ok definitions, st')) (hfits : o.Fits i a) :
    ∃ blocks : List Block, blocks.map Block.definition = definitions
      ∧ blocks.map Block.origin = ((tree? a .payload).elim [] (nodesOf ⟨i, .payload⟩)).map .node
      ∧ Adds o base st st' blocks := by
  rw [payloadDefinitions] at h
  cases hs : a.projection.isSupported with
  | false =>
    rw [hs, if_neg Bool.false_ne_true, Effect.perform_pure_eq_ok_iff] at h
    obtain ⟨rfl, rfl⟩ := h
    exact ⟨[], rfl, by simp [tree?, hs], .nil (List.Subset.refl _)⟩
  | true =>
    rw [hs, if_pos rfl] at h
    obtain ⟨hname, hsource⟩ := hfits .payload
    obtain ⟨ys, hyd, hyo, hy⟩ := rootOf_adds base ⟨i, .payload⟩ h hname hsource (by simp)
    exact ⟨ys, hyd, by simp [tree?, hs, hyo], hy⟩

/-- **Drafting an action** adds the block for its requests, and one for each
node of its trees. -/
theorem actionDefinitions_adds {base : List Block} {a : ActionSchema}
    {definitions : List Definition} (i : Nat)
    (h : (actionDefinitions a).perform st = (.ok definitions, st')) (hfits : o.Fits i a)
    (hpaging : a.projection.isSupported = true → a.projection.source.any (!·.isNested) = true →
      pagingBlock ∈ base) :
    ∃ blocks : List Block, blocks.map Block.definition = definitions
      ∧ blocks.map Block.origin = actionContents i a ∧ Adds o base st st' blocks := by
  obtain ⟨u, v, request, response, payload, htaken, hrequest, hresponse, hpayload, rfl⟩ :=
    actionDefinitions_eq_ok h
  obtain ⟨hname, hmentions, hcommented, hposition⟩ := request_eq_ok hrequest
  have hkept : st.taken ⊆ u.taken := htaken ▸ List.subset_append_right _ _
  have hfirst : Adds o base st u [⟨.request a.action.requestName, .record request⟩] :=
    .singleton rfl (hname ▸ .request hmentions hcommented hposition) hkept
  obtain ⟨xs, hxd, hxo, hx⟩ := rootOf_adds base ⟨i, .response⟩ hresponse
    (hfits .response).1 (hfits .response).2 (by
    intro p hp hflat
    cases hs : a.projection.isSupported with
    | false => simp [hs] at hp
    | true =>
      have hsource : a.projection.source = some p := by simpa [hs] using hp
      exact hpaging hs (by simp [hsource, hflat]))
  obtain ⟨ys, hyd, hyo, hy⟩ := payloadDefinitions_adds base i hpayload hfits
  refine ⟨[⟨.request a.action.requestName, .record request⟩] ++ xs ++ ys, by simp [hxd, hyd],
    ?_, ?_⟩
  · simp [hxo, hyo, actionContents, actionNodes, tree?]
  · exact (hfirst.append (hx.mono (List.subset_append_left _ _))).append
      (hy.mono (List.subset_append_left _ _))

/-- **Drafting several actions**, numbered from `i` on, adds the blocks of
all. -/
theorem allDefinitions_adds {base : List Block} {actions : List ActionSchema}
    {definitions : List Definition}
    (h : (allDefinitions actions).perform st = (.ok definitions, st'))
    (hfits : ∀ p ∈ actions.zipIdx i, o.Fits p.2 p.1)
    (hpaging : ∀ a ∈ actions, a.projection.isSupported = true →
      a.projection.source.any (!·.isNested) = true → pagingBlock ∈ base) :
    ∃ blocks : List Block, blocks.map Block.definition = definitions
      ∧ blocks.map Block.origin = ((actions.zipIdx i).flatMap fun p => actionContents p.2 p.1)
      ∧ Adds o base st st' blocks := by
  induction actions generalizing i st definitions with
  | nil =>
    rw [allDefinitions, Effect.perform_pure_eq_ok_iff] at h
    obtain ⟨rfl, rfl⟩ := h
    exact ⟨[], rfl, rfl, .nil (List.Subset.refl _)⟩
  | cons a actions ih =>
    obtain ⟨first, u, rest, hfirst, hrest, rfl⟩ := allDefinitions_cons_eq_ok h
    obtain ⟨xs, hxd, hxo, hx⟩ :=
      actionDefinitions_adds i hfirst (hfits (a, i) List.mem_cons_self)
        (hpaging a List.mem_cons_self)
    obtain ⟨ys, hyd, hyo, hy⟩ :=
      ih (i := i + 1) hrest (fun p hp => hfits p (List.mem_cons_of_mem (a, i) hp))
        fun b hb => hpaging b (List.mem_cons_of_mem a hb)
    exact ⟨xs ++ ys, by simp [hxd, hyd], by simp [hxo, hyo, List.zipIdx_cons],
      hx.append (hy.mono (List.subset_append_left _ _))⟩

/-! ## Drafting a service -/

/-- **Taking the names of the roots** leaves out the actions that failed, and
takes the names of all others. -/
theorem takeRoots_eq_ok {s : ServiceSchema} {actions drafted : List ActionSchema}
    (h : (takeRoots s actions).perform st = (.ok drafted, st')) :
    drafted = actions.filter (·.problem.isNone) ∧ st.taken ⊆ st'.taken
      ∧ ∀ a ∈ drafted, rootNames a.action ⊆ st'.taken := by
  induction actions generalizing st drafted with
  | nil =>
    rw [takeRoots, Effect.perform_pure_eq_ok_iff] at h
    obtain ⟨rfl, rfl⟩ := h
    exact ⟨rfl, List.Subset.refl _, by simp⟩
  | cons a actions ih =>
    rw [takeRoots] at h
    cases hp : a.problem with
    | some problem =>
      simp only [hp, Option.isSome_some, if_true, Effect.perform_bind_eq_ok_iff,
        Effect.perform_ofExcept_eq_ok_iff, Draft.perform_say, Prod.mk.injEq] at h
      obtain ⟨_, _, ⟨-, rfl⟩, _, _, ⟨-, rfl⟩, h⟩ := h
      obtain ⟨hdrafted, hkept, hroots⟩ := ih h
      exact ⟨by simp [hp, hdrafted], hkept, hroots⟩
    | none =>
      simp only [hp, Option.isSome_none, Bool.false_eq_true, if_false,
        Effect.perform_bind_eq_ok_iff, Effect.perform_pure_eq_ok_iff, Draft.perform_take,
        Prod.mk.injEq] at h
      obtain ⟨_, _, ⟨-, rfl⟩, rest, _, hrest, rfl, rfl⟩ := h
      obtain ⟨hdrafted, hkept, hroots⟩ := ih hrest
      refine ⟨by simp [hp, hdrafted], List.Subset.trans (List.subset_append_right _ _) hkept, ?_⟩
      intro b hb
      rcases List.mem_cons.mp hb with rfl | hb
      · exact List.Subset.trans (List.subset_append_left _ _) hkept
      · exact hroots b hb

/-- **There is one record for each map**: the definitions are for the
contents of the module, which hold each map in its trees once, and those for
maps are the records. -/
structure OnePerMap (s : ServiceSchema) (blocks : List Block) : Prop where
  contents : blocks.map Block.origin = contents s
  nodup : (blocks.filterMap fun b => b.origin.node?).Nodup
  mem_iff : ∀ n, (∃ r, ⟨.node n, .record r⟩ ∈ blocks) ↔
    ∃ a, (rendered s)[n.root.action]? = some a ∧ ∃ f, tree? a n.root.tree = some f
      ∧ f.at? n.way = some n.field ∧ n.field.shape = .map

/-- **No nested record is mistaken** for another one, for a root of an action
that is drafted, or for the record for flattened positions. -/
structure NamedApart (s : ServiceSchema) (blocks : List Block) : Prop where
  nodup : (nestedNames blocks).Nodup
  root : ∀ a ∈ rendered s, ∀ name ∈ nestedNames blocks, name ∉ rootNames a.action
  paging : needsPagingRecord s = true → pagingRecordName ∉ nestedNames blocks

/-- What is set out for the roots of the module of a service. -/
def outline (s : ServiceSchema) : Outline where
  name root := ((rendered s)[root.action]?).elim "" fun a => nameOf a.action root.tree
  source root := ((rendered s)[root.action]?).bind fun a => sourceOf? a root.tree

theorem outline_fits (s : ServiceSchema) : ∀ p ∈ (rendered s).zipIdx, (outline s).Fits p.2 p.1 := by
  rintro ⟨a, i⟩ ha t
  have ha : (rendered s)[i]? = some a := List.mk_mem_zipIdx_iff_getElem?.mp ha
  simp [outline, ha]

/-- **Drafting a service** adds a block for each of its contents, in a state
where the names of all roots are taken. -/
theorem serviceDefinitions_adds {s : ServiceSchema} {definitions : List Definition}
    (h : (serviceDefinitions s).perform st = (.ok definitions, st')) :
    ∃ (u : Draft.State) (blocks : List Block), blocks.map Block.definition = definitions
      ∧ blocks.map Block.origin = contents s ∧ Adds (outline s) [] u st' blocks
      ∧ (∀ a ∈ rendered s, rootNames a.action ⊆ u.taken)
      ∧ (needsPagingRecord s = true → pagingRecordName ∈ u.taken) := by
  obtain ⟨w, u, drafted, rest, htaken, hdrafted, hrest, rfl⟩ := serviceDefinitions_eq_ok h
  obtain ⟨hdrafted, hkept, hroots⟩ := takeRoots_eq_ok hdrafted
  have hrendered : drafted = rendered s := hdrafted
  subst hrendered
  set helpers : List Block := if needsPagingRecord s then [pagingBlock] else [] with hhelpers
  have hpaging : ∀ a ∈ rendered s, a.projection.isSupported = true →
      a.projection.source.any (!·.isNested) = true → pagingBlock ∈ helpers := by
    intro a ha hsupported hflat
    have hneeds : needsPagingRecord s = true :=
      List.any_eq_true.mpr ⟨a, List.mem_of_mem_filter ha, by simp [hsupported, hflat]⟩
    simp [hhelpers, hneeds]
  obtain ⟨blocks, hd, ho, hadds⟩ := allDefinitions_adds (i := 0) hrest (outline_fits s) hpaging
  refine ⟨u, helpers ++ blocks, ?_, ?_, ?_, hroots, ?_⟩
  · cases hneeds : needsPagingRecord s <;> simp [hhelpers, hneeds, hd, pagingBlock]
  · cases hneeds : needsPagingRecord s <;>
      simp [hhelpers, hneeds, ho, contents, pagingBlock]
  · have hfirst : Adds (outline s) [] u u helpers := by
      cases hneeds : needsPagingRecord s with
      | false =>
        rw [hhelpers, hneeds]
        exact .nil (List.Subset.refl _)
      | true =>
        rw [hhelpers, hneeds]
        exact .singleton rfl .paging (List.Subset.refl _)
    exact hfirst.append hadds
  · intro hneeds
    apply hkept
    simp [htaken, hneeds]

/-- Blocks that are laid out for the contents of a module hold one record
for each map. -/
theorem onePerMap_of_laid {s : ServiceSchema} {blocks : List Block}
    (ho : blocks.map Block.origin = contents s) (hl : Laid [] blocks) : OnePerMap s blocks := by
  have hnodes : (blocks.filterMap fun b => b.origin.node?) = nodes s := by
    rw [nodes, ← ho, List.filterMap_map]
    rfl
  refine ⟨ho, hnodes ▸ nodup_nodes s, fun n => ?_⟩
  have hmem : n ∈ nodes s ↔ ∃ b ∈ blocks, b.origin = .node n := by
    rw [← hnodes, List.mem_filterMap]
    refine exists_congr fun b => and_congr_right fun _ => ?_
    cases b.origin <;> simp [Origin.node?]
  have hmap : (∃ r, ⟨.node n, .record r⟩ ∈ blocks) ↔ n ∈ nodes s ∧ n.field.shape = .map := by
    rw [hmem]
    constructor
    · rintro ⟨r, hr⟩
      obtain ⟨before, hdrawn⟩ := hl.drawn_of_mem hr
      exact ⟨⟨_, hr, rfl⟩, hdrawn.isRecord_iff.mp ⟨r, rfl⟩⟩
    · rintro ⟨⟨⟨_, definition⟩, hb, rfl⟩, hs⟩
      obtain ⟨before, hdrawn⟩ := hl.drawn_of_mem hb
      obtain ⟨r, rfl⟩ := hdrawn.isRecord_iff.mpr hs
      exact ⟨r, hb⟩
  rw [hmap, mem_nodes_iff]
  constructor
  · rintro ⟨⟨a, ha, f, hf, hway, -⟩, hs⟩
    exact ⟨a, ha, f, hf, hway, hs⟩
  · rintro ⟨a, ha, f, hf, hway, hs⟩
    exact ⟨⟨a, ha, f, hf, hway, .inl hs⟩, hs⟩

/-- **The classes of a module stand in its text**: the text is that of its lines, which are
those of its header and of every definition, in order; and what opens a class in them are
the records, one line for each. -/
structure Emits (text : String) (s : ServiceSchema) (blocks : List Block) : Prop where
  text_eq : text.toList = textOf (moduleLayout s.service (blocks.map Block.definition))
  classes : classLines (moduleLayout s.service (blocks.map Block.definition))
    = blocks.filterMap fun b => b.definition.classLine?

/-- The text of definitions with nothing but comments above their attributes. -/
theorem emits_moduleText (s : ServiceSchema) {blocks : List Block}
    (h : ∀ b ∈ blocks, b.definition.Commented) :
    Emits (moduleText s.service (blocks.map Block.definition)) s blocks where
  text_eq := toList_moduleText s.service _
  classes := by
    rw [classLines_moduleLayout s.service (List.forall_mem_map.mpr h), List.filterMap_map]
    rfl

/-- **A module that can be drafted** holds a block for each of its contents, made as it is
set out, and its nested records are called apart. -/
theorem serviceModule_built {s : ServiceSchema} {text : String}
    (h : (serviceModule s).perform st = (.ok text, st')) :
    ∃ blocks : List Block, text = moduleText s.service (blocks.map Block.definition)
      ∧ Emits text s blocks ∧ blocks.map Block.origin = contents s ∧ NamedApart s blocks
      ∧ Built (outline s) [] blocks := by
  obtain ⟨definitions, _, hdefinitions, rfl⟩ := serviceModule_eq_ok h
  obtain ⟨u, blocks, rfl, ho, hadds, hroots, hpaging⟩ := serviceDefinitions_adds hdefinitions
  refine ⟨blocks, rfl, emits_moduleText s hadds.laid.commented, ho, ⟨hadds.nodup, ?_, ?_⟩,
    hadds.built⟩
  · exact fun a ha name hname hroot => hadds.new name hname (hroots a ha hroot)
  · exact fun hneeds hname => hadds.new _ hname (hpaging hneeds)

/-- **Nested records of a module.** A module that can be drafted holds one
record for each map in the trees of its actions: its text is that of its
definitions, line by line, and opens one class for each record. The names of
those below the roots tell them apart from each other and from the roots. And
each definition is drawn from what it is for, so that what it mentions is
defined before it, by the records of the maps that are meant. -/
theorem serviceModule_nested (s : ServiceSchema) (draft after : Draft.State) (text : String)
    (h : (serviceModule s).perform draft = (.ok text, after)) :
    ∃ blocks : List Block, Emits text s blocks ∧ OnePerMap s blocks ∧ NamedApart s blocks
      ∧ ∀ before b rest, blocks = before ++ b :: rest → Drawn before b
        ∧ ∀ name ∈ b.definition.mentions,
          ∃ d ∈ before, (d.isNested = true ∨ d = pagingBlock) ∧ d.definition.name = name := by
  obtain ⟨blocks, -, hemits, ho, hapart, hbuilt⟩ := serviceModule_built h
  refine ⟨blocks, hemits, onePerMap_of_laid ho hbuilt.laid, hapart, fun before b rest heq => ?_⟩
  have hdrawn := hbuilt.laid before b rest heq
  exact ⟨hdrawn, fun name hname => hdrawn.exists_of_mem_mentions hname⟩

/-- A nested record that would be called like the payload of its action gets
a number, also where the payload has a record of its own under that name. -/
theorem serviceModule_nested_search :
    let paging : Field :=
      .map (.str "Paging") [⟨"total", .str "Total", .scalar (.str "Total") .number, true⟩]
    let all : Entry Field := ⟨"all", .str "All", .collection (.str "All") (.map (.str "All")
      [⟨"id", .str "Id", .scalar (.str "Id") .number, false⟩]), true⟩
    let s : ServiceSchema :=
      { service := { path := .str "api/issues" }
        actions := [
          { action := { key := .str "search" }
            response :=
              .map (.str "SearchResponse") [all, ⟨"paging", .str "Paging", paging, true⟩]
            projection := ⟨some (.nested (.str "Paging") paging),
              some (.map (.str "SearchResponseAll") [all])⟩ }] }
    ∃ definitions after,
      (serviceModule s).perform {} = (.ok (moduleText s.service definitions), after)
      ∧ classLines (moduleLayout s.service definitions) = ["class SearchRequest:",
        "class SearchResponseAll2:", "class SearchResponsePaging:", "class SearchResponse:",
        "class SearchResponseAllAll:", "class SearchResponseAll:"]
      ∧ ∃ blocks : List Block, Emits (moduleText s.service definitions) s blocks
        ∧ OnePerMap s blocks ∧ NamedApart s blocks
        ∧ ∀ before b rest, blocks = before ++ b :: rest → Drawn before b
          ∧ ∀ name ∈ b.definition.mentions,
            ∃ d ∈ before, (d.isNested = true ∨ d = pagingBlock) ∧ d.definition.name = name := by
  intro paging all s
  refine ⟨_, _, rfl, ?_, serviceModule_nested s {} _ _ rfl⟩
  decide +kernel

end Exemplar.Code
