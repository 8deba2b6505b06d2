import Exemplar.Code.Module
import Exemplar.Proofs.Field.Entries
import Mathlib.Data.List.Nodup
import Mathlib.Data.List.Sigma

/-!
# The fields that a module is made for

A module of a service is made for trees: the responses of its actions, and
the payloads of those that are paged. A **node** is a field in one of these
trees, with the way to it from the root: the number of an entry for every
map on the way, and nothing but a zero for every collection.

`nodes s` lists the nodes for which there is to be a definition, which are
the maps and, where a tree is no map, its root (`mem_nodes_iff`), each once
(`nodup_nodes`). `contents s` is what all definitions of a module are for,
in their order: a request of every action in front of its trees, and the
record for flattened positions in front of all, if it is needed.
-/

namespace Exemplar

namespace Field

/-- A field directly below: an entry of a map by its number, or the element
of a collection. -/
def child? (i : Nat) : Field → Option Field
  | .collection _ e => if i = 0 then some e else none
  | .map _ es => es[i]?.map Entry.field
  | _ => none

/-- **The field at the end of a way** down from a field. -/
def at? (f : Field) : List Nat → Option Field
  | [] => some f
  | i :: way => (f.child? i).bind fun g => g.at? way

end Field

namespace Code

open Exemplar.Field

/-! ## Nodes of one tree -/

/-- The trees of an action. -/
inductive Tree where
  | response
  | payload
  deriving DecidableEq

/-- **The root of a tree** in a module: the action, by its number among
those that are drafted, and which of its trees. -/
structure Root where
  action : Nat
  tree : Tree
  deriving DecidableEq

/-- **A field in a tree**, with the way to it from the root. -/
structure Node where
  root : Root
  way : List Nat
  field : Field
  deriving DecidableEq

/-- A node directly below another one. -/
def Node.below (n : Node) (i : Nat) (f : Field) : Node := ⟨n.root, n.way ++ [i], f⟩

mutual

/-- **The maps in a field** that stands at the end of a way, each behind
those that are in it. -/
def mapsFrom (root : Root) (way : List Nat) : Field → List Node
  | .collection _ e => mapsFrom root (way ++ [0]) e
  | .map n es => mapsInEntries root way 0 es ++ [⟨root, way, .map n es⟩]
  | _ => []

/-- The maps in the fields of entries, which are numbered from `i` on. -/
def mapsInEntries (root : Root) (way : List Nat) (i : Nat) : List (Entry Field) → List Node
  | [] => []
  | ⟨_, _, f, _⟩ :: es => mapsFrom root (way ++ [i]) f ++ mapsInEntries root way (i + 1) es

end

/-- The root of a tree that becomes a synonym, being neither a map nor
empty. -/
def synonymNode (root : Root) : Field → List Node
  | .collection n e => [⟨root, [], .collection n e⟩]
  | .scalar n k => [⟨root, [], .scalar n k⟩]
  | _ => []

/-- **The nodes of a tree** for which there is to be a definition. -/
def nodesOf (root : Root) (f : Field) : List Node := mapsFrom root [] f ++ synonymNode root f

variable {root : Root} {way : List Nat} {f g : Field} {n : Node} {i : Nat}
  {es : List (Entry Field)}

/-- The maps in the field of an entry come before those in the fields behind it. -/
theorem mapsInEntries_cons (root : Root) (way : List Nat) (i : Nat) (e : Entry Field)
    (es : List (Entry Field)) : mapsInEntries root way i (e :: es)
      = mapsFrom root (way ++ [i]) e.field ++ mapsInEntries root way (i + 1) es := by
  rw [mapsInEntries]

theorem mapsInEntries_eq (root : Root) (way : List Nat) (i : Nat) (es : List (Entry Field)) :
    mapsInEntries root way i es
      = (es.zipIdx i).flatMap fun p => mapsFrom root (way ++ [p.2]) p.1.field := by
  induction es generalizing i with
  | nil => simp [mapsInEntries]
  | cons e es ih => rw [mapsInEntries, ih, List.zipIdx_cons, List.flatMap_cons]

/-- A leaf has no way down. -/
theorem at?_eq_some_of_child?_eq_none (hf : ∀ i, f.child? i = none) {w : List Nat} :
    f.at? w = some g ↔ w = [] ∧ f = g := by
  cases w with
  | nil => simp [at?]
  | cons i w => simp [at?, hf]

/-- What is directly below a field is its element, or the field of an entry. -/
theorem child?_eq_some (h : f.child? i = some g) : (∃ name, f = .collection name g)
    ∨ ∃ name es, f = .map name es ∧ ∃ e ∈ es, e.field = g := by
  cases f with
  | empty _ => nomatch h
  | scalar _ _ => nomatch h
  | collection name e =>
    obtain ⟨-, heq⟩ := Option.ite_none_right_eq_some.mp h
    exact .inl ⟨name, Option.some.inj heq ▸ rfl⟩
  | map name es =>
    obtain ⟨e, he, hfield⟩ := Option.map_eq_some_iff.mp h
    exact .inr ⟨name, es, rfl, e, List.mem_of_getElem? he, hfield⟩

/-- **What passes down** to whatever is directly below a field passes down to
the end of every way. -/
theorem at?_induction {P : Field → Prop} {f g : Field} {way : List Nat}
    (hstep : ∀ {f c : Field} {i : Nat}, f.child? i = some c → P f → P c)
    (hg : f.at? way = some g) (h : P f) : P g := by
  induction way generalizing f with
  | nil => exact Option.some.inj hg ▸ h
  | cons i way ih =>
    obtain ⟨c, hc, hrest⟩ := Option.bind_eq_some_iff.mp hg
    exact ih hrest (hstep hc h)

/-- **The maps in a field** are those that a way leads to. -/
theorem mem_mapsFrom_iff : n ∈ mapsFrom root way f ↔
    ∃ w, n.root = root ∧ n.way = way ++ w ∧ f.at? w = some n.field ∧ n.field.shape = .map := by
  induction f generalizing way with
  | empty _ =>
    simp only [mapsFrom, List.not_mem_nil, false_iff, not_exists, not_and]
    intro w _ _ hw
    obtain ⟨-, hf⟩ := (at?_eq_some_of_child?_eq_none (fun _ => rfl)).mp hw
    simp [← hf, shape]
  | scalar _ _ =>
    simp only [mapsFrom, List.not_mem_nil, false_iff, not_exists, not_and]
    intro w _ _ hw
    obtain ⟨-, hf⟩ := (at?_eq_some_of_child?_eq_none (fun _ => rfl)).mp hw
    simp [← hf, shape]
  | collection m e ih =>
    rw [mapsFrom, ih]
    constructor
    · rintro ⟨w, hr, hw, hf, hs⟩
      exact ⟨0 :: w, hr, by simpa using hw, by simpa [at?, child?] using hf, hs⟩
    · rintro ⟨w, hr, hw, hf, hs⟩
      cases w with
      | nil =>
        obtain hf := Option.some.inj hf
        rw [← hf] at hs
        nomatch hs
      | cons i w =>
        have hi : i = 0 := by
          by_contra hi
          simp [at?, child?, hi] at hf
        subst hi
        exact ⟨w, hr, by simpa using hw, by simpa [at?, child?] using hf, hs⟩
  | map m es ih =>
    rw [mapsFrom, List.mem_append, List.mem_singleton, mapsInEntries_eq, List.mem_flatMap]
    constructor
    · rintro (⟨⟨e, j⟩, he, hn⟩ | rfl)
      · have hj : es[j]? = some e := List.mk_mem_zipIdx_iff_getElem?.mp he
        obtain ⟨w, hr, hw, hf, hs⟩ := (ih e (List.mem_of_getElem? hj)).mp hn
        exact ⟨j :: w, hr, by simpa using hw, by simpa [at?, child?, hj] using hf, hs⟩
      · exact ⟨[], rfl, by simp, rfl, rfl⟩
    · rintro ⟨w, hr, hw, hf, hs⟩
      cases w with
      | nil =>
        refine .inr ?_
        obtain ⟨_, _, _⟩ := n
        obtain hf := Option.some.inj hf
        simp_all
      | cons j w =>
        obtain ⟨g, hg, hf⟩ := Option.bind_eq_some_iff.mp hf
        obtain ⟨e, he, rfl⟩ := Option.map_eq_some_iff.mp hg
        refine .inl ⟨(e, j), List.mk_mem_zipIdx_iff_getElem?.mpr he, ?_⟩
        exact (ih e (List.mem_of_getElem? he)).mpr ⟨w, hr, by simpa using hw, hf, hs⟩

/-- **No map is listed twice.** -/
theorem nodup_mapsFrom : (mapsFrom root way f).Nodup := by
  induction f generalizing way with
  | empty _ => simp [mapsFrom]
  | scalar _ _ => simp [mapsFrom]
  | collection m e ih => exact ih
  | map m es ih =>
    rw [mapsFrom, mapsInEntries_eq]
    refine List.Nodup.append (List.nodup_flatMap.mpr ⟨?_, ?_⟩) (List.nodup_singleton _) ?_
    · rintro ⟨e, j⟩ he
      exact ih e (List.mem_of_getElem? (List.mk_mem_zipIdx_iff_getElem?.mp he))
    · -- The ways to the maps of two entries part at the numbers of the entries.
      refine (List.pairwise_map.mp (List.nodup_zipIdx_map_snd es)).imp ?_
      rintro ⟨e, j⟩ ⟨e', j'⟩ hj n hn hn'
      obtain ⟨w, -, hw, -⟩ := mem_mapsFrom_iff.mp hn
      obtain ⟨w', -, hw', -⟩ := mem_mapsFrom_iff.mp hn'
      rw [hw] at hw'
      simp_all
    · intro n hn hn'
      obtain ⟨⟨e, j⟩, -, hn⟩ := List.mem_flatMap.mp hn
      obtain ⟨w, -, hw, -⟩ := mem_mapsFrom_iff.mp hn
      rw [List.mem_singleton] at hn'
      simp [hn'] at hw

theorem mem_synonymNode_iff : n ∈ synonymNode root f ↔ n.root = root ∧ n.way = []
    ∧ n.field = f ∧ f.shape ≠ .map ∧ f.shape ≠ .empty := by
  obtain ⟨_, _, _⟩ := n
  cases f <;> simp [synonymNode, shape]

/-- **The nodes of a tree** are its maps, and its root unless that is
empty. -/
theorem mem_nodesOf_iff : n ∈ nodesOf root f ↔ n.root = root ∧ f.at? n.way = some n.field
    ∧ (n.field.shape = .map ∨ n.way = [] ∧ n.field.shape ≠ .empty) := by
  rw [nodesOf, List.mem_append, mem_mapsFrom_iff, mem_synonymNode_iff]
  constructor
  · rintro (⟨w, hr, hw, hf, hs⟩ | ⟨hr, hw, hf, -, hs⟩)
    · rw [List.nil_append] at hw
      exact ⟨hr, hw ▸ hf, .inl hs⟩
    · exact ⟨hr, by rw [hw, hf]; rfl, .inr ⟨hw, hf ▸ hs⟩⟩
  · rintro ⟨hr, hf, hs⟩
    by_cases hm : n.field.shape = .map
    · exact .inl ⟨n.way, hr, rfl, hf, hm⟩
    · obtain ⟨hw, hs⟩ := hs.resolve_left hm
      rw [hw] at hf
      obtain hf := Option.some.inj hf
      exact .inr ⟨hr, hw, hf.symm, hf ▸ hm, hf ▸ hs⟩

theorem nodup_nodesOf : (nodesOf root f).Nodup := by
  refine nodup_mapsFrom.append ?_ ?_
  · cases f <;> simp [synonymNode]
  · intro n hn hn'
    obtain ⟨_, -, -, -, hs⟩ := mem_mapsFrom_iff.mp hn
    obtain ⟨-, -, hf, hm, -⟩ := mem_synonymNode_iff.mp hn'
    exact hm (hf ▸ hs)

/-! ## Nodes of a module -/

/-- The actions that are drafted: those that did not fail. -/
def rendered (s : ServiceSchema) : List ActionSchema := s.actions.filter (·.problem.isNone)

/-- A tree of an action. There is one for the payload if the action is
paged. -/
def tree? (a : ActionSchema) : Tree → Option Field
  | .response => some a.response
  | .payload =>
    if a.projection.isSupported then some (a.projection.payload.getD .absent) else none

/-- The name of the definition for a tree of an action. -/
def nameOf (a : Action) : Tree → String
  | .response => a.responseName
  | .payload => a.payloadName

/-- Where the position in the documents of a tree comes from: a paged
response has one, a payload has none. -/
def sourceOf? (a : ActionSchema) : Tree → Option PagingSource
  | .response => if a.projection.isSupported then a.projection.source else none
  | .payload => none

/-- The nodes of the trees of an action, which has a number. -/
def actionNodes (i : Nat) (a : ActionSchema) : List Node :=
  [Tree.response, Tree.payload].flatMap fun t => (tree? a t).elim [] (nodesOf ⟨i, t⟩)

/-- **What a definition is for.** -/
inductive Origin where
  /-- The positions that are flattened. -/
  | paging
  /-- The requests of an action, under a name. -/
  | request (name : String)
  | node (n : Node)
  deriving DecidableEq

/-- The node that a definition is for, if it is for one. -/
def Origin.node? : Origin → Option Node
  | .node n => some n
  | _ => none

/-- What the definitions of an action are for. -/
def actionContents (i : Nat) (a : ActionSchema) : List Origin :=
  .request a.action.requestName :: (actionNodes i a).map .node

/-- **What the definitions of a module are for**, in their order. -/
def contents (s : ServiceSchema) : List Origin :=
  (if needsPagingRecord s then [.paging] else [])
    ++ (rendered s).zipIdx.flatMap fun p => actionContents p.2 p.1

/-- **The nodes of a module** for which there is to be a definition. -/
def nodes (s : ServiceSchema) : List Node := (contents s).filterMap Origin.node?

theorem nodes_eq (s : ServiceSchema) :
    nodes s = (rendered s).zipIdx.flatMap fun p => actionNodes p.2 p.1 := by
  have hnodes : ∀ ns : List Node, (ns.map Origin.node).filterMap Origin.node? = ns := by
    intro ns
    rw [List.filterMap_map]
    exact List.filterMap_some
  have haction : ∀ i a, (actionContents i a).filterMap Origin.node? = actionNodes i a := by
    intro i a
    rw [actionContents, List.filterMap_cons, hnodes]
    rfl
  rw [nodes, contents, List.filterMap_append, List.filterMap_flatMap]
  simp only [haction]
  cases needsPagingRecord s <;> rfl

theorem mem_actionNodes_iff {a : ActionSchema} : n ∈ actionNodes i a ↔
    n.root.action = i ∧ ∃ f, tree? a n.root.tree = some f ∧ n ∈ nodesOf n.root f := by
  have htree : ∀ t, n ∈ (tree? a t).elim [] (nodesOf ⟨i, t⟩) ↔
      n.root = ⟨i, t⟩ ∧ ∃ f, tree? a t = some f ∧ n ∈ nodesOf n.root f := by
    intro t
    cases tree? a t with
    | none => simp
    | some f =>
      simp only [Option.elim_some, Option.some.injEq, exists_eq_left']
      refine ⟨fun hn => ?_, fun ⟨hr, hn⟩ => hr ▸ hn⟩
      have hr := (mem_nodesOf_iff.mp hn).1
      exact ⟨hr, hr.symm ▸ hn⟩
  simp only [actionNodes, List.mem_flatMap, htree]
  constructor
  · rintro ⟨t, -, hr, h⟩
    rw [hr] at h ⊢
    exact ⟨rfl, h⟩
  · rintro ⟨hi, h⟩
    refine ⟨n.root.tree, by cases n.root.tree <;> simp, ?_, h⟩
    rw [← hi]

/-- **The nodes of a module** are the maps in the trees of the actions that
are drafted, and the roots of these trees unless they are empty. -/
theorem mem_nodes_iff {s : ServiceSchema} : n ∈ nodes s ↔
    ∃ a, (rendered s)[n.root.action]? = some a ∧ ∃ f, tree? a n.root.tree = some f
      ∧ f.at? n.way = some n.field
      ∧ (n.field.shape = .map ∨ n.way = [] ∧ n.field.shape ≠ .empty) := by
  rw [nodes_eq, List.mem_flatMap]
  simp only [mem_actionNodes_iff, mem_nodesOf_iff, true_and]
  constructor
  · rintro ⟨⟨a, i⟩, ha, rfl, h⟩
    exact ⟨a, List.mk_mem_zipIdx_iff_getElem?.mp ha, h⟩
  · rintro ⟨a, ha, h⟩
    exact ⟨(a, n.root.action), List.mk_mem_zipIdx_iff_getElem?.mpr ha, rfl, h⟩

/-- **Each node is listed once.** -/
theorem nodup_nodes (s : ServiceSchema) : (nodes s).Nodup := by
  rw [nodes_eq]
  refine List.nodup_flatMap.mpr ⟨fun p _ => List.nodup_flatMap.mpr ⟨fun t _ => ?_, ?_⟩, ?_⟩
  · cases tree? p.1 t with
    | none => exact List.nodup_nil
    | some f => exact nodup_nodesOf
  · -- The two trees of an action have different roots.
    have hroot : ∀ t, ∀ n ∈ (tree? p.1 t).elim [] (nodesOf ⟨p.2, t⟩), n.root.tree = t := by
      intro t n hn
      cases ht : tree? p.1 t with
      | none => simp [ht] at hn
      | some f =>
        rw [ht] at hn
        rw [(mem_nodesOf_iff.mp hn).1]
    rw [List.pairwise_pair]
    intro n hn hn'
    exact nomatch (hroot _ n hn).symm.trans (hroot _ n hn')
  · refine (List.pairwise_map.mp (List.nodup_zipIdx_map_snd (rendered s))).imp ?_
    intro p q hpq n hn hn'
    exact hpq ((mem_actionNodes_iff.mp hn).1.symm.trans (mem_actionNodes_iff.mp hn').1)

end Code

end Exemplar
