import Exemplar.Proofs.Override.Index
import Exemplar.Proofs.Sorting
import Mathlib.Data.Prod.Lex
import Mathlib.Data.String.Basic

/-!
# Rules in order of their addresses

A registry is listed action by action, and path by path for each action; every action
and every path is met once, and in order (`exists_scopes_eq`, `exists_paths_eq`). If the
addresses consist of texts, that does not fail, and it gives the one list that is in
order of the addresses and keeps the order of the rules with one address
(`exists_rules_eq`). So nothing is lost for any path when listed rules are made a
registry again, alone (`sameView_of_arranges`) or behind the built-in rules
(`exists_load_eq`).
-/

namespace Exemplar.OverrideRegistry

/-! ## Addresses -/

/-- The text of a value, the empty one if it is none. -/
def textOf : Json → String
  | .str s => s
  | _ => ""

/-- The endpoint and the action of a rule, in texts. -/
def scopeOf (r : OverrideRule) : String ×ₗ String := toLex (textOf r.endpoint, textOf r.action)

/-- **The address of a rule**, in texts: rules go by endpoint, then by action, then by
path. -/
def address (r : OverrideRule) : (String ×ₗ String) ×ₗ String :=
  toLex (scopeOf r, textOf r.path)

variable {r r' : OverrideRule} {rules : List OverrideRule}

theorem Good.textual (h : Good r) : Textual r := textual_iff.mpr h.texts

/-- A rule addressed by texts is at its address. -/
theorem Textual.isAt_iff (h : Textual r) {e a p : String} :
    IsAt (.str e) (.str a) (.str p) r ↔ address r = toLex (toLex (e, a), p) := by
  obtain ⟨e', a', p', he, ha, hp⟩ := h
  rw [isAt_str_iff, address, scopeOf, he, ha, hp]
  simp [textOf, and_assoc]

/-- **Addresses of texts compare** as they should. -/
theorem addressBefore?_eq (h : Textual r) (h' : Textual r') :
    addressBefore? r r' = some (decide (address r < address r')) := by
  obtain ⟨e, a, p, he, ha, hp⟩ := h
  obtain ⟨e', a', p', he', ha', hp'⟩ := h'
  unfold addressBefore? address scopeOf
  rw [he, ha, hp, he', ha', hp']
  simp only [Json.key_str, textOf, Prod.Lex.toLex_lt_toLex, ne_eq, Json.str.injEq, toLex_inj,
    Prod.mk.injEq, Json.before?]
  by_cases heq : e = e'
  · by_cases haq : a = a' <;> simp [heq, haq]
  · simp [heq]

/-- **The key of an endpoint and an action** that are texts. -/
def scopeKey (scope : Json × Json) : String ×ₗ String := toLex (textOf scope.1, textOf scope.2)

/-- Endpoints and actions that are texts compare by their keys. -/
theorem scopeBefore_eq (e a e' a' : String) :
    scopeBefore (.str e, .str a) (.str e', .str a')
      = .ok (decide (scopeKey (.str e, .str a) < scopeKey (.str e', .str a'))) := by
  unfold scopeBefore scopeKey
  simp only [Json.key_str, textOf, Prod.Lex.toLex_lt_toLex, ne_eq, Json.str.injEq, Json.before,
    Json.before?]
  by_cases heq : e = e'
  · by_cases haq : a = a' <;> simp [heq, haq]
  · simp [heq]

/-! ## Listing -/

/-- **The paths of a view** with rules for texts: each once, in order. -/
theorem exists_paths_eq {v : OverrideView} (h : ∀ r ∈ v.rules, Textual r) :
    ∃ ps, v.paths = .ok ps ∧ ps.Pairwise (fun p q => textOf p < textOf q)
      ∧ ∀ p, p ∈ ps ↔ p ∈ v.rules.map (·.path) := by
  have htexts : ∀ p ∈ v.rules.map (·.path), ∃ s, p = .str s := by
    rw [List.forall_mem_map]
    intro r hr
    obtain ⟨-, -, p, -, -, hp⟩ := h r hr
    exact ⟨p, hp⟩
  obtain ⟨ps, hps, hstrict, hmem⟩ : ∃ ps, Sorting.sort Json.before
      (Json.distinct (v.rules.map (·.path))) = .ok ps
      ∧ ps.Pairwise (fun p q => textOf p < textOf q) ∧ ∀ p, p ∈ ps ↔ p ∈ v.rules.map (·.path) := by
    refine Sorting.exists_sort_eraseDupsBy ?_ ?_ ?_ <;> intro p hp q hq
    all_goals
      obtain ⟨s, rfl⟩ := htexts p hp
      obtain ⟨t, rfl⟩ := htexts q hq
    · rfl
    · exact congrArg Json.str
    · simp
  exact ⟨ps, by rw [OverrideView.paths, Json.ascending, hps]; rfl, hstrict, hmem⟩

/-- **The endpoints and actions** with rules for texts: each once, in order. -/
theorem exists_scopes_eq {g : OverrideRegistry} (h : ∀ r ∈ g.given, Textual r) :
    ∃ ss, Sorting.sort scopeBefore g.scopes = .ok ss
      ∧ ss.Pairwise (fun s t => scopeKey s < scopeKey t)
      ∧ ∀ s, s ∈ ss ↔ s ∈ g.given.map fun r => (r.endpoint, r.action) := by
  have htexts : ∀ s ∈ g.given.map fun r => (r.endpoint, r.action),
      ∃ e a, s = (.str e, .str a) := by
    rw [List.forall_mem_map]
    intro r hr
    obtain ⟨e, a, -, he, ha, -⟩ := h r hr
    exact ⟨e, a, by rw [he, ha]⟩
  refine Sorting.exists_sort_eraseDupsBy ?_ ?_ ?_ <;> intro s hs t ht
  all_goals
    obtain ⟨e, a, rfl⟩ := htexts s hs
    obtain ⟨e', a', rfl⟩ := htexts t ht
  · exact scopeBefore_eq e a e' a'
  · simp [scopeKey, textOf]
  · simp

/-- **A view, path by path**, is arranged by address. -/
theorem arranges_paths {v : OverrideView} {ps : List Json} (h : ∀ r ∈ v.rules, Textual r)
    (hscope : ∀ r ∈ v.rules, ∀ r' ∈ v.rules, scopeOf r = scopeOf r')
    (hps : ps.Pairwise fun p q => textOf p < textOf q)
    (hmem : ∀ p, p ∈ ps ↔ p ∈ v.rules.map (·.path)) :
    Sorting.Arranges address v.rules (ps.flatMap v.lookup) := by
  refine Sorting.arranges_flatMap (fun r => textOf r.path) hps
    (fun r hr => ⟨r.path, (hmem _).mpr (List.mem_map_of_mem hr), rfl⟩)
    (fun r hr r' hr' hlt => ?_)
    (fun r r' heq => (Prod.ext_iff.mp (toLex.injective heq)).2) (fun p hp => ?_)
  · exact (Prod.Lex.toLex_lt_toLex.mpr (.inr ⟨hscope r hr r' hr', hlt⟩)).le
  · obtain ⟨r₀, hr₀, rfl⟩ := List.mem_map.mp ((hmem p).mp hp)
    have hlookup : v.lookup r₀.path = v.rules.filter fun r => textOf r.path = textOf r₀.path := by
      refine List.filter_congr fun r hr => decide_eq_decide.mpr ?_
      obtain ⟨-, -, s, -, -, hs⟩ := h r hr
      obtain ⟨-, -, t, -, -, ht⟩ := h r₀ hr₀
      simp [hs, ht, textOf]
    rw [hlookup]
    -- the rules of one path of a view have one address
    refine .refl (List.pairwise_of_forall_mem_list fun r hr r' hr' => le_of_eq ?_)
    obtain ⟨hr, hpath⟩ := List.mem_filter.mp hr
    obtain ⟨hr', hpath'⟩ := List.mem_filter.mp hr'
    rw [address, address, hscope r hr r' hr', of_decide_eq_true hpath, of_decide_eq_true hpath']

/-- **A registry is listed** in order of the addresses. -/
theorem exists_listed_eq {g : OverrideRegistry} (h : ∀ r ∈ g.given, Textual r) :
    ∃ rules, g.listed = .ok rules ∧ Sorting.Arranges address g.given rules := by
  obtain ⟨ss, hss, hstrict, hmem⟩ := exists_scopes_eq h
  have hview : ∀ s ∈ ss, ∃ ps, (g.view s.1 s.2).paths = .ok ps ∧ Sorting.Arranges address
      (g.given.filter (scopeOf · = scopeKey s)) (ps.flatMap (g.view s.1 s.2).lookup) := by
    intro s hs
    obtain ⟨r₀, hr₀, rfl⟩ := List.mem_map.mp ((hmem s).mp hs)
    have hrules : (g.view r₀.endpoint r₀.action).rules
        = g.given.filter (scopeOf · = scopeKey (r₀.endpoint, r₀.action)) := by
      refine List.filter_congr fun r hr => decide_eq_decide.mpr ?_
      obtain ⟨e, a, -, he, ha, -⟩ := h r hr
      obtain ⟨e', a', -, he', ha', -⟩ := h r₀ hr₀
      simp [he, ha, he', ha', scopeOf, scopeKey, textOf]
    have htextual : ∀ r ∈ (g.view r₀.endpoint r₀.action).rules, Textual r :=
      fun r hr => h r (List.mem_filter.mp hr).1
    obtain ⟨ps, hps, hpaths, hpsmem⟩ := exists_paths_eq htextual
    refine ⟨ps, hps, hrules ▸ arranges_paths htextual (fun r hr r' hr' => ?_) hpaths hpsmem⟩
    rw [hrules] at hr hr'
    exact (of_decide_eq_true (List.mem_filter.mp hr).2).trans
      (of_decide_eq_true (List.mem_filter.mp hr').2).symm
  choose! paths hpaths harranges using hview
  refine ⟨ss.flatMap fun s => (paths s).flatMap (g.view s.1 s.2).lookup, ?_,
    Sorting.arranges_flatMap scopeOf hstrict
      (fun r hr => ⟨_, (hmem _).mpr (List.mem_map_of_mem hr), rfl⟩)
      (fun r _ r' _ hlt => (Prod.Lex.toLex_lt_toLex.mpr (.inl hlt)).le)
      (fun r r' heq => (Prod.ext_iff.mp (toLex.injective heq)).1) harranges⟩
  refine result_bind_eq_ok_iff.mpr ⟨ss, congrArg (·.mapError Fault.breach) hss, ?_⟩
  refine result_bind_eq_ok_iff.mpr ⟨ss.map fun s => (paths s).flatMap (g.view s.1 s.2).lookup,
    mapM_eq_ok_iff.mpr (List.forall₂_map_right_iff.mpr (List.forall₂_same.mpr fun s hs => ?_)), rfl⟩
  dsimp only
  rw [hpaths s hs]
  rfl

/-- **Listing** a registry gives its rules in order of their addresses, whether all at
once or action by action. -/
theorem exists_rules_eq {g : OverrideRegistry} (h : ∀ r ∈ g.given, Textual r) :
    ∃ rules, g.rules = .ok rules ∧ g.listed = .ok rules
      ∧ Sorting.Arranges address g.given rules := by
  obtain ⟨rules, hlisted, harranges⟩ := exists_listed_eq h
  refine ⟨rules, ?_, hlisted, harranges⟩
  have hbefore : ∀ r ∈ g.given, ∀ r' ∈ g.given,
      decide (addressBefore? r' r ≠ some true) = decide (address r ≤ address r') := by
    intro r hr r' hr'
    rw [addressBefore?_eq (h r' hr') (h r hr)]
    simp
  have hsort : g.given.mergeSort (fun r r' => addressBefore? r' r ≠ some true)
      = g.given.mergeSort fun r r' => decide (address r ≤ address r') := by
    simpa only [List.map_id] using List.map_mergeSort (f := id)
      (r := fun r r' => decide (addressBefore? r' r ≠ some true))
      (s := fun r r' => decide (address r ≤ address r')) hbefore
  rw [OverrideRegistry.rules, if_pos (isOrdered_of_texts fun r hr => textual_iff.mp (h r hr)),
    hsort]
  exact congrArg Except.ok ((Sorting.arranges_mergeSort address g.given).unique harranges)

/-! ## Answers -/

/-- The rules that are addressed to a path, in their order. -/
def addressedTo (rules : List OverrideRule) (e a p : String) : List OverrideRule :=
  rules.filter fun r => r.endpoint = .str e ∧ r.action = .str a ∧ r.path = .str p

/-- **How a registry answers**: which rules each path of an action finds, which also
decide what is to become of it. -/
def Answers (g : OverrideRegistry) (answer : String → String → String → List OverrideRule) :
    Prop :=
  ∀ e a, ∃ v, g.filter (.str e) (.str a) = .ok v ∧ ∀ p,
    v.lookup (.str p) = answer e a p ∧ DecidedBy v (.str p) (answer e a p)

/-- A path finds the rules that are addressed to it. -/
theorem lookup_view_str (g : OverrideRegistry) (e a p : String) :
    (g.view (.str e) (.str a)).lookup (.str p) = addressedTo g.given e a p := by
  rw [lookup_view]
  exact List.filter_congr fun r _ => decide_eq_decide.mpr isAt_str_iff

/-- **A registry answers** with the rules that are addressed to a path. -/
theorem answers_of_good {g : OverrideRegistry} (h : ∀ r ∈ g.given, Good r) :
    g.Answers (addressedTo g.given) := by
  refine fun e a => ⟨g.view (.str e) (.str a), rfl, fun p => ⟨lookup_view_str g e a p, ?_⟩⟩
  rw [← lookup_view_str]
  refine decidedBy_lookup fun r hr => h r ?_
  rw [lookup_view_str] at hr
  exact (List.mem_filter.mp hr).1

/-- An arrangement of rules keeps those of each address in their order. -/
theorem addressedTo_of_arranges {given : List OverrideRule} (h : ∀ r ∈ given, Textual r)
    (harranges : Sorting.Arranges address given rules) (e a p : String) :
    addressedTo rules e a p = addressedTo given e a p := by
  have haddress : ∀ rs : List OverrideRule, (∀ r ∈ rs, Textual r) →
      addressedTo rs e a p = rs.filter (address · = toLex (toLex (e, a), p)) := fun rs hrs =>
    List.filter_congr fun r hr =>
      decide_eq_decide.mpr (isAt_str_iff.symm.trans (hrs r hr).isAt_iff)
  rw [haddress rules fun r hr => h r (harranges.subset hr), haddress given h, harranges.stable]

/-! ## Rebuilding -/

/-- **Two views are the same**: of one action, with the same rules for each path, the
same paths, and as many rules. -/
structure SameView (v w : OverrideView) : Prop where
  endpoint : v.endpoint = w.endpoint
  action : v.action = w.action
  lookup : ∀ path, v.lookup path = w.lookup path
  paths : v.paths = w.paths
  size : v.size = w.size

/-- **The views of arranged rules** are those of the rules as they were given. -/
theorem sameView_of_arranges {given : List OverrideRule} (h : ∀ r ∈ given, Textual r)
    (harranges : Sorting.Arranges address given rules) (e a : String) :
    SameView (view ⟨rules⟩ (.str e) (.str a)) (view ⟨given⟩ (.str e) (.str a)) := by
  have hrules : ∀ r ∈ rules, Textual r := fun r hr => h r (harranges.subset hr)
  have hperm : (view ⟨rules⟩ (.str e) (.str a)).rules.Perm
      (view ⟨given⟩ (.str e) (.str a)).rules := harranges.perm.filter _
  refine ⟨rfl, rfl, fun path => ?_, ?_, hperm.length_eq⟩
  · by_cases hpath : ∃ p, path = .str p
    · obtain ⟨p, rfl⟩ := hpath
      rw [lookup_view_str, lookup_view_str]
      exact addressedTo_of_arranges h harranges e a p
    · -- nothing is addressed to what is no text
      have hnone : ∀ rs : List OverrideRule, (∀ r ∈ rs, Textual r) →
          rs.filter (IsAt (.str e) (.str a) path) = [] := by
        intro rs hrs
        rw [List.filter_eq_nil_iff]
        intro r hr hat
        obtain ⟨-, -, p, -, -, hp⟩ := hrs r hr
        have hkey : r.path.key = path.key := (of_decide_eq_true hat).2
        rw [hp, Json.key_str] at hkey
        exact hpath ⟨p, Json.key_eq_str_iff.mp hkey.symm⟩
      rw [lookup_view, lookup_view, hnone rules hrules, hnone given h]
  · obtain ⟨ps, hps, hstrict, hmem⟩ := exists_paths_eq (v := view ⟨rules⟩ (.str e) (.str a))
      fun r hr => hrules r (List.mem_filter.mp hr).1
    obtain ⟨qs, hqs, hstrict', hmem'⟩ := exists_paths_eq (v := view ⟨given⟩ (.str e) (.str a))
      fun r hr => h r (List.mem_filter.mp hr).1
    have heq : ps = qs := by
      refine List.Perm.eq_of_pairwise (fun p q _ _ hpq hqp => absurd hqp hpq.asymm) hstrict hstrict'
        ((List.perm_ext_iff_of_nodup (hstrict.imp fun hlt => ?_)
          (hstrict'.imp fun hlt => ?_)).mpr fun p => ?_)
      · exact fun hpq => hlt.ne (congrArg textOf hpq)
      · exact fun hpq => hlt.ne (congrArg textOf hpq)
      · rw [hmem, hmem', (hperm.map _).mem_iff]
    rw [hps, hqs, heq]

/-! ## Loading -/

/-- The rules that a run has before it looks at a file are good. -/
theorem good_of_mem_standing {withBuiltIn : Bool} (hr : r ∈ standing withBuiltIn) : Good r := by
  cases withBuiltIn with
  | false => nomatch hr
  | true =>
    have hr : r ∈ OverrideRule.builtIn := hr
    simp only [OverrideRule.builtIn, List.mem_cons, List.not_mem_nil, or_false] at hr
    rcases hr with rfl | rfl | rfl | rfl | rfl <;> exact good_of (by decide +kernel)

/-- Good rules are a registry, as they are given. -/
theorem ofRules_of_good (h : ∀ r ∈ rules, Good r) : ofRules rules = .ok ⟨rules⟩ := by
  refine ofRules_eq_ok fun r hr part hpart => ?_
  obtain ⟨s, rfl⟩ := (h r hr).texts part hpart
  rfl

/-- The rules behind others are found behind them. -/
theorem addressedTo_append (rs rules : List OverrideRule) (e a p : String) :
    addressedTo (rs ++ rules) e a p = addressedTo rs e a p ++ addressedTo rules e a p :=
  List.filter_append ..

/-- **Loading a file of good rules** answers with the built-in rules first, and behind
them with those of the file in its order. -/
theorem exists_load_eq (h : ∀ r ∈ rules, Good r) {bytes : List Nat} {items : List Json}
    (hholds : Holds bytes (.arr items)) (husable : List.Forall₂ Usable items rules) (path : Path)
    (withBuiltIn : Bool) :
    ∃ g, (load (some (ofFile path (.ok bytes))) withBuiltIn).outcome = .ok g
      ∧ g.Answers fun e a p => addressedTo (standing withBuiltIn) e a p
        ++ addressedTo rules e a p := by
  have htextual : ∀ r ∈ rules, Textual r := fun r hr => (h r hr).textual
  obtain ⟨sorted, hsorted, -, harranges⟩ := exists_rules_eq (g := ⟨rules⟩) htextual
  refine ⟨⟨standing withBuiltIn ++ sorted⟩, ?_, ?_⟩
  · rw [outcome_load_of_usable hholds husable, hsorted]
    rfl
  · have hgood : ∀ r ∈ standing withBuiltIn ++ sorted, Good r := fun r hr =>
      (List.mem_append.mp hr).elim good_of_mem_standing fun hr => h r (harranges.subset hr)
    have hanswer : addressedTo (standing withBuiltIn ++ sorted) = fun e a p =>
        addressedTo (standing withBuiltIn) e a p ++ addressedTo rules e a p := by
      funext e a p
      rw [addressedTo_append, addressedTo_of_arranges htextual harranges]
    exact hanswer ▸ answers_of_good (g := ⟨standing withBuiltIn ++ sorted⟩) hgood

/-- **A registry of good rules answers** every path with the rules that are addressed to
it, in the order in which they were given, as an index does to which they are added one
by one. Listed, the rules go by endpoint, action and path, and those of one address
keep their order, so the registry of the listed rules has the same views; and a run
that loads them from a file answers with the built-in rules first and with the rules of
the file behind them, in the order of the file. -/
theorem registry_answers (h : ∀ r ∈ rules, Good r) :
    ∃ g, ofRules rules = .ok g ∧ g.Answers (addressedTo rules)
      ∧ (∀ e a p, g.index.lookup (.str e) (.str a) (.str p) = addressedTo rules e a p)
      ∧ (∃ sorted, g.rules = .ok sorted ∧ g.listed = .ok sorted
        ∧ Sorting.Arranges address rules sorted
        ∧ ∃ g', ofRules sorted = .ok g' ∧ g'.Answers (addressedTo rules)
          ∧ ∀ e a, ∃ v w, g.filter (.str e) (.str a) = .ok v
            ∧ g'.filter (.str e) (.str a) = .ok w ∧ SameView w v)
      ∧ (∀ withBuiltIn, ∃ g', (load none withBuiltIn).outcome = .ok g'
        ∧ g'.Answers (addressedTo (standing withBuiltIn)))
      ∧ ∀ path bytes items withBuiltIn, Holds bytes (.arr items) →
        List.Forall₂ Usable items rules →
        ∃ g', (load (some (ofFile path (.ok bytes))) withBuiltIn).outcome = .ok g'
          ∧ g'.Answers fun e a p => addressedTo (standing withBuiltIn) e a p
            ++ addressedTo rules e a p := by
  have htextual : ∀ r ∈ rules, Textual r := fun r hr => (h r hr).textual
  obtain ⟨sorted, hsorted, hlisted, harranges⟩ := exists_rules_eq (g := ⟨rules⟩) htextual
  have hgood : ∀ r ∈ sorted, Good r := fun r hr => h r (harranges.subset hr)
  have hanswer : addressedTo sorted = addressedTo rules := by
    funext e a p
    exact addressedTo_of_arranges htextual harranges e a p
  refine ⟨⟨rules⟩, ofRules_of_good h, answers_of_good h, fun e a p => ?_,
    ⟨sorted, hsorted, hlisted, harranges, ⟨sorted⟩, ofRules_of_good hgood, ?_, fun e a => ?_⟩,
    fun withBuiltIn => ?_, fun path bytes items withBuiltIn hholds husable =>
      exists_load_eq h hholds husable path withBuiltIn⟩
  · rw [lookup_index, lookup_view_str]
  · exact hanswer ▸ answers_of_good (g := ⟨sorted⟩) hgood
  · exact ⟨_, _, rfl, rfl, sameView_of_arranges htextual harranges e a⟩
  · have hstanding : ∀ r ∈ standing withBuiltIn, Good r := fun r => good_of_mem_standing
    refine ⟨⟨standing withBuiltIn⟩, ?_, answers_of_good hstanding⟩
    rw [load, Run.outcome_ofExcept]
    exact ofRules_of_good hstanding

/-- Rules that give a field two names, and leave out another one between them. -/
def renamedTwice : List OverrideRule := [
  .of "system" "info" "System" .rename (.str "node"),
  .of "system" "info" "Health" .skip .null,
  .of "system" "info" "System" .rename (.str "host")]

/-- The text of a file of these rules. -/
def renamedTwiceText : List Char :=
  let rule (path kind value : String) : List String :=
    ["\x7b\"endpoint\": ", "\"system\", ", "\"action\": ", "\"info\", ", "\"path\": ",
      path, ", ", "\"kind\": ", kind, ", ", "\"value\": ", value, "\x7d"]
  (["["] ++ rule "\"System\"" "\"rename\"" "\"node\"" ++ [", "]
    ++ rule "\"Health\"" "\"skip\"" "null" ++ [", "]
    ++ rule "\"System\"" "\"rename\"" "\"host\"" ++ ["]"]).flatMap String.toList

theorem good_of_mem_renamedTwice : ∀ r ∈ renamedTwice, Good r := by
  simp only [renamedTwice, List.forall_mem_cons]
  exact ⟨good_of (by decide +kernel), good_of (by decide +kernel), good_of (by decide +kernel),
    nofun⟩

/-- The text holds these rules. -/
theorem holds_renamedTwiceText :
    Holds (renamedTwiceText.map Char.toNat) (.arr (renamedTwice.map OverrideRule.toJson)) := by
  refine ⟨renamedTwiceText, by decide +kernel, ?_⟩
  rw [Json.decode, String.toList_ofList]
  decide +kernel

/-- **The first of two names** is given, before and after the rules were listed; and a
built-in rule for the field comes before both. -/
theorem registry_answers_renamed :
    (∀ r ∈ renamedTwice, Good r)
      ∧ (∃ g v, ofRules renamedTwice = .ok g ∧ g.filter (.str "system") (.str "info") = .ok v
        ∧ (v.lookup (.str "System")).map (·.value) = [.str "node", .str "host"]
        ∧ v.renamed? (.str "System") = some (.str "node")
        ∧ ∃ sorted g' w, g.rules = .ok sorted ∧ ofRules sorted = .ok g'
          ∧ g'.filter (.str "system") (.str "info") = .ok w ∧ SameView w v)
      ∧ ∃ g v, (load (some (ofFile (.ofText "overrides.json")
          (.ok (renamedTwiceText.map Char.toNat)))) true).outcome = .ok g
        ∧ g.filter (.str "system") (.str "info") = .ok v
        ∧ (v.lookup (.str "System")).map (·.kind) = [.forceType, .rename, .rename] := by
  obtain ⟨g, hg, hanswers, -, ⟨sorted, hsorted, -, -, g', hg', -, hviews⟩, -, hload⟩ :=
    registry_answers good_of_mem_renamedTwice
  obtain ⟨v, w, hv, hw, hsame⟩ := hviews "system" "info"
  obtain ⟨v', hv', hfound⟩ := hanswers "system" "info"
  obtain rfl : v' = v := Except.ok.inj (hv'.symm.trans hv)
  obtain ⟨hlookup, hdecided⟩ := hfound "System"
  have husable : List.Forall₂ Usable (renamedTwice.map OverrideRule.toJson) renamedTwice :=
    List.forall₂_map_left_iff.mpr (List.forall₂_same.mpr fun r hr =>
      (good_of_mem_renamedTwice r hr).usable_toJson)
  obtain ⟨loaded, hloaded, hanswers'⟩ :=
    hload (.ofText "overrides.json") _ _ true holds_renamedTwiceText husable
  obtain ⟨u, hu, hloadedFound⟩ := hanswers' "system" "info"
  refine ⟨good_of_mem_renamedTwice, ⟨g, v', hg, hv, ?_, ?_, sorted, g', w, hsorted, hg', hw, hsame⟩,
    loaded, u, hloaded, hu, ?_⟩
  · rw [hlookup]
    decide
  · exact (hdecided.renamed_iff _).mpr ⟨.of "system" "info" "System" .rename (.str "node"),
      ⟨[], [.of "system" "info" "System" .rename (.str "host")], by decide, rfl, nofun⟩, rfl⟩
  · rw [(hloadedFound "System").1]
    decide

end Exemplar.OverrideRegistry
