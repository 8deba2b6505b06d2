import Exemplar.Proofs.Code.Layout
import Exemplar.Proofs.Code.Nodes
import Exemplar.Proofs.Run

/-!
# Definitions and what they are for

To say what a definition of a module is meant for, it is kept with what it
is for (`Block`). A type **stands for** a node if the names in it are those
of the records of the maps at and below that node (`StandsFor`), and a block
is **drawn** from what it is for if its attributes stand for the entries of
its node (`Drawn`), always given the blocks before it. What a draft makes of
a node is settled further: the members of a record are those of the entries
of its node, and a root has the name and the paging accessor that were set
out for it (`Made`). A block that is made so is drawn (`Made.drawn`).

Drafting a part of a module adds blocks to those that are there (`Adds`).
What is to be shown of them is an invariant that is kept when parts are put
together (`Adds.append`).
-/

namespace Exemplar.Code

open Exemplar.Field

/-! ## Blocks -/

/-- **A definition with what it is for.** -/
structure Block where
  origin : Origin
  definition : Definition
  deriving DecidableEq

/-- The block of a map below a root. -/
def Block.isNested (b : Block) : Bool :=
  match b.origin with
  | .node n => n.way ≠ []
  | _ => false

/-- The names of the nested records. -/
def nestedNames (blocks : List Block) : List String :=
  (blocks.filter Block.isNested).map fun b => b.definition.name

/-- The record that an initial value is made of. -/
def Initial.names : Initial → List String
  | .newRecord n => [n]
  | _ => []

/-- The names that an attribute mentions: in its annotation, and as what
makes its initial value. -/
def Attribute.mentions (a : Attribute) : List String :=
  a.type.names ++ a.initial.elim [] Initial.names

/-- **The names that a definition mentions.** -/
def Definition.mentions : Definition → List String
  | .record r => r.attributes.flatMap Attribute.mentions ++ r.paging.elim [] fun p => p.type.names
  | .synonym _ _ type => type.names

/-- The block for flattened positions. -/
def pagingBlock : Block := ⟨.paging, .record pagingRecord⟩

/-- **A type stands for a node**, given the blocks that are there: where the
node is a map, or a collection of them, it names the record that was drawn
from that map. -/
inductive StandsFor (before : List Block) : Node → TypeExpr → Prop where
  | empty {root : Root} {way : List Nat} {name : Json} :
      StandsFor before ⟨root, way, .empty name⟩ .any
  | scalar {root : Root} {way : List Nat} {name : Json} {kind : Kind} :
      StandsFor before ⟨root, way, .scalar name kind⟩ (.ofKind kind)
  | collection {root : Root} {way : List Nat} {name : Json} {e : Field} {t : TypeExpr} :
      StandsFor before ⟨root, way ++ [0], e⟩ t →
      StandsFor before ⟨root, way, .collection name e⟩ (.list t)
  | map {root : Root} {way : List Nat} {name : Json} {es : List (Entry Field)} {r : Record} :
      way ≠ [] → ⟨.node ⟨root, way, .map name es⟩, .record r⟩ ∈ before →
      StandsFor before ⟨root, way, .map name es⟩ (.named r.name)

/-- The entries that become attributes, with their numbers from `i` on: all
but those without a schema. -/
def listed (i : Nat) (es : List (Entry Field)) : List (Entry Field × Nat) :=
  (es.zipIdx i).filter fun p => p.1.field.shape ≠ .empty

/-- **An attribute of the record for a node represents an entry.** Its type
stands for the field of the entry, or it is optional, and its initial value
is made of that type. It has one line, with no comments above it. -/
structure Represents (before : List Block) (n : Node) (p : Entry Field × Nat) (a : Attribute) :
    Prop where
  key_eq : a.key = .str p.1.key
  name_eq : Naming.snakeOf p.1.accessor = .ok a.name
  comments_eq : a.comments = []
  type : ∃ t, StandsFor before (n.below p.2 p.1.field) t ∧
    (a.type = t ∧ a.initial = some t.initial ∨ a.type = .optional t ∧ a.initial = some .none)

/-- **What a paging accessor of the record for a node refers to**: the
attribute of an entry, with the type that stands for it, or the record for
flattened positions. -/
def Refers (before : List Block) (n : Node) (es : List (Entry Field)) : PagingAccessor → Prop
  | .nested t member => t = .any ∨ ∃ p ∈ listed 0 es, Naming.snakeOf p.1.accessor = .ok member
      ∧ StandsFor before (n.below p.2 p.1.field) t
  | .flattened _ _ _ => pagingBlock ∈ before

/-- **A block that is drawn** from what it is for, given the blocks before
it. -/
inductive Drawn (before : List Block) : Block → Prop where
  | paging : Drawn before pagingBlock
  | request {r : Record} : (Definition.record r).mentions = [] →
      (Definition.record r).Commented → Drawn before ⟨.request r.name, .record r⟩
  /-- A record for a map, with an attribute for each entry. -/
  | record {n : Node} {name : Json} {es : List (Entry Field)} {r : Record} :
      n.field = .map name es → List.Forall₂ (Represents before n) (listed 0 es) r.attributes →
      (∀ p ∈ r.paging, Refers before n es p) → Drawn before ⟨.node n, .record r⟩
  /-- A synonym for a root that is no map. -/
  | synonym {n : Node} {name description : String} {t : TypeExpr} : n.way = [] →
      n.field.shape ≠ .map → StandsFor before n t →
      Drawn before ⟨.node n, .synonym name description t⟩

/-- **Blocks that are laid out in order** behind those of a base: each is
drawn from what it is for, given all the blocks before it. -/
def Laid (base blocks : List Block) : Prop :=
  ∀ before b after, blocks = before ++ b :: after → Drawn (base ++ before) b

/-! ## What a draft makes -/

/-- A member of the record for a node that is made for an entry. -/
structure MemberFor (before : List Block) (n : Node) (p : Entry Field × Nat) (m : Member) :
    Prop where
  made : ∃ name, Naming.snakeOf p.1.accessor = .ok name ∧ m = Member.ofEntry p.1 m.type name
  type : StandsFor before (n.below p.2 p.1.field) m.type

/-- **What is set out for the roots** of a module: the name of each, and
where the position in its documents comes from. -/
structure Outline where
  name : Root → String
  source : Root → Option PagingSource

/-- **A block that is made** for what it is for, given the blocks before it
and what is set out for the roots. -/
inductive Made (o : Outline) (before : List Block) : Block → Prop where
  | paging : Made o before pagingBlock
  | request {r : Record} : (Definition.record r).mentions = [] →
      (Definition.record r).Commented → r.paging = none →
      Made o before ⟨.request r.name, .record r⟩
  /-- A record for a map that is no root. -/
  | nested {n : Node} {name : Json} {es : List (Entry Field)} {r : Record}
      {members : List Member} : n.field = .map name es → n.way ≠ [] →
      List.Forall₂ (MemberFor before n) (listed 0 es) members →
      r.attributes = members.map Member.toAttribute → (r.attributes.map Attribute.name).Nodup →
      r.paging = none → Made o before ⟨.node n, .record r⟩
  /-- A record for a map that is a root. -/
  | root {n : Node} {name : Json} {es : List (Entry Field)} {r : Record}
      {members : List Member} : n.field = .map name es → n.way = [] →
      List.Forall₂ (MemberFor before n) (listed 0 es) members →
      r.attributes = members.map Member.toAttribute → (r.attributes.map Attribute.name).Nodup →
      r.name = o.name n.root →
      (o.source n.root).mapM (pagingAccessor members) = .ok r.paging →
      (∀ p ∈ r.paging, Refers before n es p) →
      Made o before ⟨.node n, .record r⟩
  /-- A synonym for a root that is no map. -/
  | synonym {n : Node} {description : String} {t : TypeExpr} : n.way = [] →
      n.field.shape ≠ .map → StandsFor before n t →
      Made o before ⟨.node n, .synonym (o.name n.root) description t⟩

/-- **Blocks that are made in order** behind those of a base: each is made
for what it is for, given all the blocks before it. -/
def Built (o : Outline) (base blocks : List Block) : Prop :=
  ∀ before b after, blocks = before ++ b :: after → Made o (base ++ before) b

variable {base base' before before' blocks xs ys : List Block} {b : Block} {n : Node}
  {t : TypeExpr} {a : Attribute} {p : Entry Field × Nat} {es : List (Entry Field)} {f : Field}
  {root : Root} {way : List Nat} {i : Nat} {st st' u : Draft.State} {o : Outline}

/-! ## More blocks before -/

theorem StandsFor.mono (h : StandsFor before n t) (hsub : before ⊆ before') :
    StandsFor before' n t := by
  induction h with
  | empty => exact .empty
  | scalar => exact .scalar
  | collection _ ih => exact .collection ih
  | map hw hr => exact .map hw (hsub hr)

theorem MemberFor.accessor_eq {m : Member} (h : MemberFor before n p m) :
    m.accessor = p.1.accessor := by
  obtain ⟨name, -, hm⟩ := h.made
  rw [hm]
  rfl

theorem MemberFor.mono {m : Member} (h : MemberFor before n p m) (hsub : before ⊆ before') :
    MemberFor before' n p m :=
  ⟨h.made, h.type.mono hsub⟩

theorem Refers.mono {accessor : PagingAccessor} (h : Refers before n es accessor)
    (hsub : before ⊆ before') : Refers before' n es accessor := by
  cases accessor with
  | nested t member =>
    refine h.imp_right ?_
    rintro ⟨p, hp, hname, ht⟩
    exact ⟨p, hp, hname, ht.mono hsub⟩
  | flattened _ _ _ => exact hsub h

theorem Made.mono (h : Made o before b) (hsub : before ⊆ before') : Made o before' b := by
  cases h with
  | paging => exact .paging
  | request hr hc hp => exact .request hr hc hp
  | nested hf hw hm ha hd hp => exact .nested hf hw (hm.imp fun _ _ h => h.mono hsub) ha hd hp
  | root hf hw hm ha hd hname hs hp =>
    exact .root hf hw (hm.imp fun _ _ h => h.mono hsub) ha hd hname hs
      fun q hq => (hp q hq).mono hsub
  | synonym hw hs ht => exact .synonym hw hs (ht.mono hsub)

/-- More blocks in front of the same ones. -/
theorem append_subset_append (xs : List Block) (hsub : base ⊆ base') : base ++ xs ⊆ base' ++ xs :=
  List.append_subset.mpr
    ⟨fun _ h => List.mem_append_left xs (hsub h), List.subset_append_right base' xs⟩

theorem Built.mono (h : Built o base blocks) (hsub : base ⊆ base') : Built o base' blocks :=
  fun before b after heq =>
    (h before b after heq).mono (append_subset_append before hsub)

/-- Blocks that are made behind others, which are made themselves. -/
theorem Built.append (hx : Built o base xs) (hy : Built o (base ++ xs) ys) :
    Built o base (xs ++ ys) := by
  intro before b after heq
  rcases List.append_eq_append_iff.mp heq with ⟨zs, rfl, hzs⟩ | ⟨zs, rfl, hzs⟩
  · simpa using hy zs b after hzs
  · cases zs with
    | nil => simpa using hy [] b after (by simpa using hzs.symm)
    | cons c zs =>
      obtain ⟨rfl, -⟩ := List.cons.inj hzs
      exact hx before b zs rfl

theorem Built.singleton (h : Made o base b) : Built o base [b] := by
  intro before c after heq
  cases before with
  | nil =>
    obtain ⟨rfl, -⟩ := List.cons.inj heq
    simpa using h
  | cons d before => simp at heq

/-- A block among those that are made is made from blocks before it. -/
theorem Built.made_of_mem (h : Built o base blocks) (hb : b ∈ blocks) :
    ∃ before ⊆ base ++ blocks, Made o before b := by
  obtain ⟨before, after, rfl⟩ := List.append_of_mem hb
  exact ⟨base ++ before, by simp, h before b after rfl⟩

/-! ## What is made is drawn -/

/-- The attribute of a member represents the entry that the member is made
for. -/
theorem MemberFor.represents {m : Member} (h : MemberFor before n p m) :
    Represents before n p m.toAttribute := by
  obtain ⟨⟨name, hname, hm⟩, ht⟩ := h
  rw [hm]
  unfold Member.ofEntry
  by_cases hp : (p.1.required || decide (m.type = .any)) = true
  · simp only [if_pos hp]
    exact ⟨rfl, hname, rfl, m.type, ht, .inl ⟨rfl, rfl⟩⟩
  · simp only [if_neg hp]
    exact ⟨rfl, hname, rfl, m.type, ht, .inr ⟨rfl, rfl⟩⟩

/-- The attributes of members that are made for entries. -/
theorem forall₂_represents {members : List Member}
    (hm : List.Forall₂ (MemberFor before n) (listed 0 es) members) :
    List.Forall₂ (Represents before n) (listed 0 es) (members.map Member.toAttribute) := by
  rw [List.forall₂_map_right_iff]
  exact hm.imp fun _ _ h => h.represents

theorem Made.drawn (h : Made o before b) : Drawn before b := by
  cases h with
  | paging => exact .paging
  | request hr hc _ => exact .request hr hc
  | nested hf hw hm ha _ hp =>
    exact .record hf (ha ▸ forall₂_represents hm) (fun q hq => nomatch hp ▸ hq)
  | root hf hw hm ha _ _ _ hp => exact .record hf (ha ▸ forall₂_represents hm) hp
  | synonym hw hs ht => exact .synonym hw hs ht

theorem Built.laid (h : Built o base blocks) : Laid base blocks :=
  fun before b after heq => (h before b after heq).drawn

/-- A block among those laid out is drawn, from the blocks before it. -/
theorem Laid.drawn_of_mem (h : Laid base blocks)
    (hb : b ∈ blocks) : ∃ before, Drawn before b := by
  obtain ⟨before, after, heq⟩ := List.append_of_mem hb
  exact ⟨base ++ before, h before b after heq⟩

/-- A drawn block for a node is a record exactly if the node is a map. -/
theorem Drawn.isRecord_iff {definition : Definition} (h : Drawn before ⟨.node n, definition⟩) :
    (∃ r, definition = .record r) ↔ n.field.shape = .map := by
  cases h with
  | record hf _ _ => simp [hf, shape]
  | synonym _ hs _ => simp [hs]

/-- What stands above the attributes of a drawn block are comments. -/
theorem Drawn.commented (h : Drawn before b) : b.definition.Commented := by
  cases h with
  | paging => simp [pagingBlock, pagingRecord, pagingPart, Definition.Commented,
      Attribute.Commented]
  | request _ hc => exact hc
  | record _ ha _ =>
    intro a hmem
    obtain ⟨p, -, hp⟩ := exists_of_mem_right ha hmem
    simp [Attribute.Commented, hp.comments_eq]
  | synonym _ _ _ => trivial

theorem Laid.commented (h : Laid base blocks) : ∀ b ∈ blocks, b.definition.Commented := by
  intro b hb
  obtain ⟨before, hdrawn⟩ := h.drawn_of_mem hb
  exact hdrawn.commented

/-! ## What is mentioned -/

/-- **The names in a type that stands for a node** are those of the records
of maps in that node. -/
theorem StandsFor.exists_of_mem_names (h : StandsFor before n t) {name : String}
    (hname : name ∈ t.names) :
    ∃ d ∈ before, d.isNested = true ∧ d.definition.name = name := by
  induction h with
  | empty => simp [TypeExpr.names] at hname
  | @scalar _ _ _ kind => cases kind <;> simp [TypeExpr.ofKind, TypeExpr.names] at hname
  | collection _ ih => exact ih hname
  | @map _ _ _ _ r hw hr =>
    obtain rfl : name = r.name := by simpa [TypeExpr.names] using hname
    exact ⟨_, hr, by simp [Block.isNested, hw], rfl⟩

/-- An initial value is made of what its type names. -/
theorem names_initial_subset (t : TypeExpr) : t.initial.names ⊆ t.names := by
  cases t <;> simp [TypeExpr.initial, Initial.names, TypeExpr.names]

/-- So are the names that an attribute for an entry mentions. -/
theorem Represents.exists_of_mem_mentions (h : Represents before n p a) {name : String}
    (hname : name ∈ a.mentions) :
    ∃ d ∈ before, d.isNested = true ∧ d.definition.name = name := by
  obtain ⟨t, ht, ha⟩ := h.type
  refine ht.exists_of_mem_names ?_
  rw [Attribute.mentions, List.mem_append] at hname
  rcases ha with ⟨htype, hinitial⟩ | ⟨htype, hinitial⟩
  · rw [htype, hinitial] at hname
    exact hname.elim id fun h => names_initial_subset t h
  · rw [htype, hinitial] at hname
    exact hname.elim id fun h => nomatch h

/-- **Whatever a drawn block mentions** is defined before it, by a nested
record or by the record for flattened positions. -/
theorem Drawn.exists_of_mem_mentions (h : Drawn before b) {name : String}
    (hname : name ∈ b.definition.mentions) :
    ∃ d ∈ before, (d.isNested = true ∨ d = pagingBlock) ∧ d.definition.name = name := by
  cases h with
  | paging => exact absurd hname (by simp [pagingBlock, Definition.mentions, pagingRecord,
      pagingPart, Attribute.mentions, TypeExpr.names, Initial.names])
  | request hr _ => exact absurd (hr ▸ hname) List.not_mem_nil
  | @record _ _ es r _ ha hp =>
    rw [Definition.mentions, List.mem_append] at hname
    rcases hname with hname | hname
    · obtain ⟨a, hmem, hname⟩ := List.mem_flatMap.mp hname
      obtain ⟨p, -, hp⟩ := exists_of_mem_right ha hmem
      obtain ⟨d, hd, hn, hname⟩ := hp.exists_of_mem_mentions hname
      exact ⟨d, hd, .inl hn, hname⟩
    · cases hpaging : r.paging with
      | none => simp [hpaging] at hname
      | some accessor =>
        rw [hpaging] at hname hp
        have haccessor := hp accessor rfl
        cases accessor with
        | nested t member =>
          rcases haccessor with rfl | ⟨p, -, -, ht⟩
          · exact absurd hname List.not_mem_nil
          · obtain ⟨d, hd, hn, hname⟩ := ht.exists_of_mem_names hname
            exact ⟨d, hd, .inl hn, hname⟩
        | flattened _ _ _ =>
          exact ⟨pagingBlock, haccessor, .inr rfl, (List.mem_singleton.mp hname).symm⟩
  | synonym _ _ ht =>
    obtain ⟨d, hd, hn, hname⟩ := ht.exists_of_mem_names hname
    exact ⟨d, hd, .inl hn, hname⟩

/-! ## What a draft adds -/

theorem nestedNames_append (xs ys : List Block) :
    nestedNames (xs ++ ys) = nestedNames xs ++ nestedNames ys := by
  simp [nestedNames]

/-- **A draft adds blocks**: it keeps the names that are taken, the names of
the nested records it adds are new and taken afterwards, and the blocks are
made in order behind the base. -/
structure Adds (o : Outline) (base : List Block) (st st' : Draft.State) (blocks : List Block) :
    Prop where
  kept : st.taken ⊆ st'.taken
  new : ∀ name ∈ nestedNames blocks, name ∉ st.taken
  taken : nestedNames blocks ⊆ st'.taken
  nodup : (nestedNames blocks).Nodup
  built : Built o base blocks

/-- What a draft adds is drawn, each block from what it is for. -/
theorem Adds.laid (h : Adds o base st st' blocks) : Laid base blocks := h.built.laid

/-- A draft that only takes names adds nothing. -/
theorem Adds.nil (h : st.taken ⊆ st'.taken) : Adds o base st st' [] where
  kept := h
  new := by simp [nestedNames]
  taken := by simp [nestedNames]
  nodup := by simp [nestedNames]
  built := by simp [Built]

theorem Adds.mono (h : Adds o base st st' blocks) (hsub : base ⊆ base') :
    Adds o base' st st' blocks :=
  { h with built := h.built.mono hsub }

/-- **One draft after another** adds the blocks of both. -/
theorem Adds.append (hx : Adds o base st u xs) (hy : Adds o (base ++ xs) u st' ys) :
    Adds o base st st' (xs ++ ys) where
  kept := List.Subset.trans hx.kept hy.kept
  new := by
    intro name hname
    rw [nestedNames_append, List.mem_append] at hname
    rcases hname with hname | hname
    · exact hx.new name hname
    · exact fun h => hy.new name hname (hx.kept h)
  taken := by
    rw [nestedNames_append]
    exact List.append_subset.mpr ⟨List.Subset.trans hx.taken hy.kept, hy.taken⟩
  nodup := by
    rw [nestedNames_append]
    exact hx.nodup.append hy.nodup (fun name hname hname' => hy.new name hname' (hx.taken hname))
  built := hx.built.append hy.built

/-- A block that is no nested record takes no name. -/
theorem Adds.singleton (hn : b.isNested = false) (hd : Made o base b)
    (h : st.taken ⊆ st'.taken) : Adds o base st st' [b] where
  kept := h
  new := by simp [nestedNames, hn]
  taken := by simp [nestedNames, hn]
  nodup := by simp [nestedNames, hn]
  built := .singleton hd

/-- **A nested record** has the name that was taken for it in advance, so
what is added in between is called otherwise. -/
theorem Adds.nested (hx : Adds o base st st' xs) (hn : b.isNested = true)
    (hnew : b.definition.name ∉ u.taken) (htaken : st.taken = b.definition.name :: u.taken)
    (hd : Made o (base ++ xs) b) : Adds o base u st' (xs ++ [b]) := by
  have hsub : u.taken ⊆ st.taken := htaken ▸ List.subset_cons_self _ _
  have hmem : b.definition.name ∈ st.taken := htaken ▸ List.mem_cons_self
  have hnames : nestedNames (xs ++ [b]) = nestedNames xs ++ [b.definition.name] := by
    simp [nestedNames, hn]
  refine ⟨List.Subset.trans hsub hx.kept, ?_, ?_, ?_, hx.built.append (.singleton hd)⟩
  · intro name hname
    rw [hnames, List.mem_append, List.mem_singleton] at hname
    rcases hname with hname | rfl
    · exact fun h => hx.new name hname (hsub h)
    · exact hnew
  · rw [hnames]
    exact List.append_subset.mpr
      ⟨hx.taken, List.cons_subset.mpr ⟨hx.kept hmem, List.nil_subset _⟩⟩
  · rw [hnames]
    refine hx.nodup.append (List.nodup_singleton _) ?_
    intro name hname hname'
    rw [List.mem_singleton] at hname'
    exact hx.new name hname (hname' ▸ hmem)

end Exemplar.Code
