import Wamn.Lib.Keyed
import Wamn.Lib.Transition
import Wamn.Numbering.Grammar

/-!
# Parsing document number patterns is exact

A text is a pattern exactly if a syntax tree of the grammar spells it whose counters do not depend
on themselves. The renderer can order the counters of every pattern, each after the one that its key
names.
-/

namespace Wamn.Numbering

open List Lib Lib.Dependency

/-! ## Counters of a syntax tree -/

lemma firstRepeat_eq_none {seen names : List String} :
    firstRepeat seen names = none ↔ names.Nodup ∧ ∀ name ∈ names, name ∉ seen := by
  induction names generalizing seen with
  | nil => simp [firstRepeat]
  | cons name names ih =>
    rw [firstRepeat, nodup_cons, forall_mem_cons]
    split
    · rename_i hseen
      simp [hseen]
    · rename_i hseen
      rw [ih]
      constructor
      · rintro ⟨hnodup, hfresh⟩
        exact ⟨⟨fun hmem => hfresh name hmem mem_cons_self, hnodup⟩, hseen,
          fun other hother hmem => hfresh other hother (mem_cons_of_mem _ hmem)⟩
      · rintro ⟨⟨hname, hnodup⟩, -, hfresh⟩
        refine ⟨hnodup, fun other hother hmem => ?_⟩
        rcases mem_cons.1 hmem with rfl | hmem
        · exact hname hother
        · exact hfresh other hother hmem

lemma counters_scanned (items : List Item) :
    ((items.map Item.scanned).filterMap fun part => part.1.counter?).map Counter.name =
      counterNames items := by
  induction items with
  | nil => rfl
  | cons item items ih =>
    cases item with
    | seq name options => exact congrArg (name :: ·) ih
    | _ => exact ih

section Options

variable {options : List OptionText} {st : CounterOptions} {b : String}

lemma OptionText.Names.kind_eq {o : OptionText} (h : o.Names b) : o.kind = .scope := by
  rcases h with rfl | rfl
  · rfl
  · rfl

lemma key_apply {o : OptionText} (h : st.key = none) : (o.apply st).key = some b ↔ o.Names b := by
  cases o with
  | reset key | per key =>
    cases key <;> simp [OptionText.apply, KeyText.meaning, OptionText.Names, h]
  | _ => simp [OptionText.apply, OptionText.Names, h]

lemma key_apply_of_kind {o : OptionText} (h : o.kind ≠ .scope) : (o.apply st).key = st.key := by
  cases o with
  | reset key | per key => exact absurd rfl h
  | _ => rfl

lemma key_foldl_of_kind (h : ∀ o ∈ options, o.kind ≠ .scope) :
    (options.foldl OptionText.apply st).key = st.key := by
  induction options generalizing st with
  | nil => rfl
  | cons o options ih =>
    obtain ⟨ho, hrest⟩ := forall_mem_cons.1 h
    rw [foldl_cons, ih hrest, key_apply_of_kind ho]

lemma key_foldl (hnodup : (options.map OptionText.kind).Nodup) (h : st.key = none) :
    (options.foldl OptionText.apply st).key = some b ↔ ∃ o ∈ options, o.Names b := by
  induction options generalizing st with
  | nil => simp [h]
  | cons o options ih =>
    obtain ⟨hfresh, hnodup⟩ := nodup_cons.1 hnodup
    rw [foldl_cons, exists_mem_cons_iff]
    by_cases ho : o.kind = .scope
    · -- No later option is about the scope.
      have hrest : ∀ o' ∈ options, o'.kind ≠ .scope := fun o' ho' hkind =>
        hfresh (mem_map.2 ⟨o', ho', hkind.trans ho.symm⟩)
      rw [key_foldl_of_kind hrest, key_apply h]
      exact ⟨.inl, fun hnames => hnames.resolve_right fun ⟨o', ho', hb⟩ => hrest o' ho' hb.kind_eq⟩
    · rw [ih hnodup ((key_apply_of_kind ho).trans h)]
      exact ⟨.inr, fun hnames => hnames.resolve_left fun hb => ho hb.kind_eq⟩

/-- A key that is yet to be resolved has a scope, and no key is resolved to a counter. -/
structure CounterOptions.Unresolved (st : CounterOptions) : Prop where
  keyed : st.key.isSome = true → st.scope ≠ .always
  unresolved : ∀ b, st.scope.key ≠ some (.counter b)

lemma unresolved_apply (st : CounterOptions) (o : OptionText) (h : st.Unresolved) :
    (o.apply st).Unresolved := by
  cases o with
  | reset key | per key => cases key <;> exact ⟨nofun, nofun⟩
  | _ => exact ⟨h.keyed, h.unresolved⟩

lemma unresolved_foldl (options : List OptionText) :
    (options.foldl OptionText.apply {}).Unresolved :=
  have hstart : ({} : CounterOptions).Unresolved := ⟨nofun, nofun⟩
  invariant_foldl unresolved_apply hstart options

end Options

lemma Scope.key_resolve {scope : Scope} {key : Key} (h : scope ≠ .always) :
    (scope.resolve key).key = some key := by
  cases scope with
  | always => exact absurd rfl h
  | _ => rfl

lemma needs_resolved {names : List String} {name b : String} {options : List OptionText}
    {c : Counter} (honce : (options.map OptionText.kind).Nodup)
    (h : (resolvePart names (Item.seq name options).scanned).counter? = some c) :
    c.name = name ∧ (c.needs = some b ↔ (∃ o ∈ options, o.Names b) ∧ b ∈ names) := by
  have hstart : ({} : CounterOptions).key = none := rfl
  rw [← key_foldl honce hstart]
  have hscope := unresolved_foldl options
  rw [Item.scanned] at h
  generalize options.foldl OptionText.apply {} = st at h hscope
  cases hkey : st.key with
  | none =>
    -- Without a key to resolve the scope has a date or nothing.
    simp only [resolvePart, hkey, Part.counter?, Option.some.injEq] at h
    subst h
    refine ⟨rfl, ?_⟩
    simp only [reduceCtorEq, false_and, iff_false, Counter.needs]
    split
    · exact absurd ‹_› (hscope.unresolved _)
    · exact nofun
  | some n =>
    simp only [resolvePart, hkey, Part.counter?, Option.some.injEq] at h
    subst h
    refine ⟨rfl, ?_⟩
    rw [Counter.needs, Scope.key_resolve (hscope.keyed (by rw [hkey]; rfl))]
    split
    · rename_i other hother
      split at hother
      · rename_i hmem
        obtain rfl := Key.counter.inj (Option.some.inj hother)
        exact ⟨fun h => ⟨h, Option.some.inj h ▸ hmem⟩, And.left⟩
      · cases hother
    · rename_i hother
      refine ⟨nofun, fun ⟨hb, hmem⟩ => ?_⟩
      obtain rfl := Option.some.inj hb
      exact absurd (congrArg some (if_pos hmem)) (hother _)

lemma mem_counters_meaning {items : List Item} {c : Counter} :
    c ∈ (meaning items).counters ↔ ∃ name options, Item.seq name options ∈ items ∧
      (resolvePart (counterNames items) (Item.seq name options).scanned).counter? = some c := by
  simp only [Pattern.counters, meaning, map_map, mem_filterMap, mem_map]
  constructor
  · rintro ⟨_, ⟨item, hitem, rfl⟩, hc⟩
    cases item with
    | seq name options => exact ⟨name, options, hitem, hc⟩
    | _ => cases hc
  · rintro ⟨name, options, hitem, hc⟩
    exact ⟨_, ⟨_, hitem, rfl⟩, hc⟩

lemma names_resolved (names : List String) (item : Item) :
    (resolvePart names item.scanned).counter?.map Counter.name = item.counterName? := by
  cases item with
  | seq name options =>
    rw [Item.scanned]
    cases (options.foldl OptionText.apply {}).key <;> rfl
  | _ => rfl

lemma names_meaning (items : List Item) :
    (meaning items).counters.map Counter.name = counterNames items := by
  simp only [Pattern.counters, meaning, map_map, filterMap_map, map_filterMap,
    counterNames]
  exact congrArg (List.filterMap · items) (funext (names_resolved _))

section Meaning

variable {items : List Item} (h : IsPattern OptionText.kind items)
include h

lemma unique_counters : ((meaning items).counters.map Counter.name).Nodup :=
  names_meaning items ▸ h.counters

lemma keyOf_name {c : Counter} (hc : c ∈ (meaning items).counters) :
    (meaning items).keyOf c.name = c.needs := by
  rw [Pattern.keyOf, (Keyed.find?_eq_some (unique_counters h)).2 ⟨hc, rfl⟩, Option.bind_some]

lemma keyOf_meaning {a b : String} : (meaning items).keyOf a = some b ↔ Refers items a b := by
  constructor
  · intro hkey
    obtain ⟨c, hfind, hb⟩ := Option.bind_eq_some_iff.1 hkey
    obtain ⟨hc, rfl⟩ := (Keyed.find?_eq_some (unique_counters h)).1 hfind
    obtain ⟨name, options, hitem, hresolved⟩ := mem_counters_meaning.1 hc
    obtain ⟨rfl, hneeds⟩ := needs_resolved (h.once _ hitem) hresolved
    obtain ⟨hnames, hmem⟩ := hneeds.1 hb
    exact ⟨options, hitem, hnames, hmem⟩
  · rintro ⟨options, hitem, hnames, hmem⟩
    obtain ⟨c, hresolved, -⟩ := Option.map_eq_some_iff.1
      (names_resolved (counterNames items) (.seq a options))
    obtain ⟨rfl, hneeds⟩ := needs_resolved (h.once _ hitem) hresolved
    rw [keyOf_name h (mem_counters_meaning.2 ⟨_, options, hitem, hresolved⟩)]
    exact hneeds.2 ⟨hnames, hmem⟩

lemma reaches_meaning {a b : String} :
    Reaches (meaning items).keyOf a b ↔ Relation.TransGen (Refers items) a b := by
  have hrel : (fun a b => (meaning items).keyOf a = some b) = Refers items := by
    funext a b
    exact propext (keyOf_meaning h)
  rw [Reaches, hrel]

lemma mem_names_of_keyOf (a b : String) (hkey : (meaning items).keyOf a = some b) :
    a ∈ (meaning items).counters.map Counter.name := by
  obtain ⟨options, hitem, -⟩ := (keyOf_meaning h).1 hkey
  rw [names_meaning]
  exact mem_filterMap.2 ⟨_, hitem, rfl⟩

lemma refuseCounterCycles_eq_ok {text : String} {u : Unit} :
    refuseCounterCycles (meaning items) text = .ok u ↔
      ∀ name, ¬ Relation.TransGen (Refers items) name name := by
  have hsearch : ∀ name, returnsWithin (meaning items).keyOf name (meaning items).counters.length
      name = true ↔ Relation.TransGen (Refers items) name name := by
    intro name
    rw [returnsWithin_iff, ← reaches_meaning h, reaches_self_iff (mem_names_of_keyOf h),
      length_map]
  simp only [refuseCounterCycles, forM_eq_ok, ensure_eq_ok, Bool.not_eq_true', ← hsearch,
    Bool.not_eq_true]
  refine ⟨fun hcounters name => ?_, fun hnames c _ => hnames c.name⟩
  by_contra hcycle
  rw [Bool.not_eq_false] at hcycle
  -- Only a counter has a key to start from.
  obtain ⟨next, hkey, -⟩ := Relation.TransGen.head'_iff.1 ((hsearch name).1 hcycle)
  obtain ⟨c, hc, rfl⟩ := mem_map.1
    (mem_names_of_keyOf h name next ((keyOf_meaning h).2 hkey))
  rw [hcounters c hc] at hcycle
  cases hcycle

lemma counterOrder_meaning (hacyclic : ∀ name, ¬ Relation.TransGen (Refers items) name name) :
    ∃ ordered, counterOrder (meaning items) = some ordered ∧
      ordered.Perm (meaning items).counters ∧ Ordered Counter.name Counter.needs ordered := by
  have hsorted := (meaning items).counters.mergeSort_perm fun left right => left.name ≤ right.name
  have hneeds := fun c hc => keyOf_name h (c := c) (hsorted.mem_iff.1 hc)
  obtain ⟨ordered, horder, hperm, hafter⟩ := order_eq_some hneeds
    (fun c hc other hother => by
      obtain ⟨-, -, -, hmem⟩ := (keyOf_meaning h).1 ((hneeds c hc).trans hother)
      rw [← names_meaning] at hmem
      obtain ⟨d, hd, rfl⟩ := mem_map.1 hmem
      exact ⟨d, hsorted.mem_iff.2 hd, rfl⟩)
    fun c _ hcycle => hacyclic c.name ((reaches_meaning h).1 hcycle)
  exact ⟨ordered, horder, hperm.trans hsorted, hafter⟩

end Meaning

/-! ## The parser -/

/-- The parser returns what a syntax tree of the text means. -/
theorem parse_eq_ok {text : String} {pattern : Pattern} :
    parse text = .ok pattern ↔ ∃ items, IsPattern OptionText.kind items ∧
      items.flatMap Item.spell = text.toList ∧
      (∀ name, ¬ Relation.TransGen (Refers items) name name) ∧ meaning items = pattern := by
  unfold parse
  rw [bind_eq_ok]
  constructor
  · rintro ⟨scanned, hscan, h⟩
    obtain ⟨items, ⟨hvalid, honce, hchain, hspell⟩, rfl⟩ := scan_eq_ok.1 hscan
    simp only [counters_scanned] at h
    split at h
    · cases h
    · rename_i hrepeat
      obtain ⟨u, hcycles, hpattern⟩ := bind_eq_ok.1 h
      have hitems : IsPattern OptionText.kind items :=
        ⟨hvalid, honce, hchain, (firstRepeat_eq_none.1 hrepeat).1⟩
      exact ⟨items, hitems, hspell, (refuseCounterCycles_eq_ok hitems).1 hcycles,
        pure_eq_ok.1 hpattern⟩
  · rintro ⟨items, hitems, hspell, hacyclic, rfl⟩
    refine ⟨items.map Item.scanned, scan_eq_ok.2
      ⟨items, ⟨hitems.valid, hitems.once, hitems.alternating, hspell⟩, rfl⟩, ?_⟩
    have hrepeat : firstRepeat [] (counterNames items) = none :=
      firstRepeat_eq_none.2 ⟨hitems.counters, fun _ _ => not_mem_nil⟩
    simp only [counters_scanned, hrepeat]
    exact bind_eq_ok.2 ⟨(), (refuseCounterCycles_eq_ok hitems).2 hacyclic, rfl⟩

/-- The parser takes exactly the texts that the grammar generates, with one scope at most for each
counter and no counter that depends on itself. The counters of a pattern have different names and an
order, each after the counter that its key names. -/
theorem pattern_parse_exact (text : String) :
    ((∃ pattern, parse text = .ok pattern) ↔ Generated OptionText.kind text) ∧
      ∀ pattern, parse text = .ok pattern →
        (pattern.counters.map Counter.name).Nodup ∧
        ∃ ordered, counterOrder pattern = some ordered ∧ ordered.Perm pattern.counters ∧
          Ordered Counter.name Counter.needs ordered := by
  refine ⟨⟨?_, ?_⟩, fun pattern hparse => ?_⟩
  · rintro ⟨pattern, hparse⟩
    obtain ⟨items, hitems, hspell, hacyclic, -⟩ := parse_eq_ok.1 hparse
    exact ⟨items, hitems, hspell, hacyclic⟩
  · rintro ⟨items, hitems, hspell, hacyclic⟩
    exact ⟨meaning items, parse_eq_ok.2 ⟨items, hitems, hspell, hacyclic, rfl⟩⟩
  · obtain ⟨items, hitems, -, hacyclic, rfl⟩ := parse_eq_ok.1 hparse
    exact ⟨unique_counters hitems, counterOrder_meaning hitems hacyclic⟩

namespace Sample

def batchLines : List Item :=
  [.literal "B", .seq "batch" [.per (.named "batch_id"), .width ['4']], .literal "-",
    .seq "line" [.reset (.named "batch"), .width ['3']]]

lemma refers_batchLines {a b : String} (h : Refers batchLines a b) :
    a = "line" ∧ b = "batch" := by
  obtain ⟨options, hitem, ⟨o, ho, hnames⟩, hb⟩ := h
  have hb : "batch" = b ∨ "line" = b := by
    simpa [batchLines, counterNames, Item.counterName?] using hb
  have hitem : a = "batch" ∧ options = [.per (.named "batch_id"), .width ['4']] ∨
      a = "line" ∧ options = [.reset (.named "batch"), .width ['3']] := by
    simpa [batchLines] using hitem
  rcases hitem with ⟨rfl, rfl⟩ | ⟨rfl, rfl⟩
  · -- The key of the batch counter is a field.
    rcases hnames with rfl | rfl
    · simp at ho
    · obtain rfl : b = "batch_id" := by simpa using ho
      exact absurd hb (by decide)
  · rcases hnames with rfl | rfl
    · exact ⟨rfl, by simpa using ho⟩
    · simp at ho

theorem batch_lines_are_ordered :
    ∃ pattern,
      parse "B\x7bseq:batch,per=batch_id,width=4\x7d-\x7bseq:line,reset=batch,width=3\x7d" =
        .ok pattern ∧
      ∃ ordered, counterOrder pattern = some ordered ∧ ordered.Perm pattern.counters ∧
        Ordered Counter.name Counter.needs ordered := by
  have hexact := pattern_parse_exact
    "B\x7bseq:batch,per=batch_id,width=4\x7d-\x7bseq:line,reset=batch,width=3\x7d"
  obtain ⟨pattern, hparse⟩ := hexact.1.2 ⟨batchLines,
    ⟨by decide, by decide, by unfold Alternating; decide, by decide⟩, rfl, fun name hcycle => by
      obtain ⟨_, hfirst, -⟩ := Relation.TransGen.head'_iff.1 hcycle
      obtain ⟨_, -, hlast⟩ := Relation.TransGen.tail'_iff.1 hcycle
      have hline := (refers_batchLines hfirst).1
      rw [(refers_batchLines hlast).2] at hline
      exact absurd hline (by decide)⟩
  exact ⟨pattern, hparse, (hexact.2 pattern hparse).2⟩

/-- A counter with `reset=` and `per=` has each documented option at most once, and is refused. -/
theorem reset_and_per_is_refused :
    ¬ ∀ text, (∃ pattern, parse text = .ok pattern) ↔ Generated OptionText.word text := by
  intro h
  have hgenerated : Generated OptionText.word "\x7bseq:n,reset=a,per=b\x7d" := by
    refine ⟨[.seq "n" [.reset (.named "a"), .per (.named "b")]],
      ⟨by decide, by decide, by unfold Alternating; decide, by decide⟩, rfl, fun name hcycle => ?_⟩
    -- Neither key names the counter.
    obtain ⟨key, ⟨options, hitem, ⟨o, ho, hnames⟩, hkey⟩, -⟩ :=
      Relation.TransGen.head'_iff.1 hcycle
    obtain rfl : key = "n" := by simpa [counterNames, Item.counterName?] using hkey
    obtain ⟨rfl, rfl⟩ : name = "n" ∧ options = [.reset (.named "a"), .per (.named "b")] := by
      simpa using hitem
    rcases hnames with rfl | rfl <;> simp at ho
  obtain ⟨pattern, hparse⟩ := (h _).2 hgenerated
  obtain ⟨scanned, hscan, -⟩ := bind_eq_ok.1 hparse
  have htext : "\x7bseq:n,reset=a,per=b\x7d".toList = '\x7b' :: "seq:n,reset=a,per=b\x7d".toList :=
    rfl
  rw [htext, scan] at hscan
  cases hscan

end Sample

end Wamn.Numbering
