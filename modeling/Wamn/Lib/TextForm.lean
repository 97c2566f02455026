import Mathlib.Data.List.Infix
import Wamn.Lib.Text

/-!
# Normal forms of texts

A text is searched for a phrase in a normal form: its words are joined by single separators, without
one next to a stop. The phrase is found there exactly if the text spells it, with any gap between
two words and before the stop. Gaps are runs of characters with a property that the separator has
and the stop has not.
-/

namespace Wamn.Lib.TextForm

open List

variable {α : Type}

/-! ## Pairs -/

section Pair

variable [DecidableEq α] {a b c : α}

/-- The occurrences of the pair `a b`, taken from the left, replaced by `c`. -/
def replacePair (a b c : α) : List α → List α
  | [] => []
  | [x] => [x]
  | x :: y :: r =>
    if x = a ∧ y = b then c :: replacePair a b c r else x :: replacePair a b c (y :: r)

lemma replacePair_append {l r : List α} (h : ∀ x ∈ l.getLast?, x = a → ∀ y ∈ r.head?, y ≠ b) :
    replacePair a b c (l ++ r) = replacePair a b c l ++ replacePair a b c r := by
  fun_induction replacePair a b c l with
  | case1 => rfl
  | case2 x =>
    cases r with
    | nil => rfl
    | cons y r =>
      have hpair : ¬ (x = a ∧ y = b) := fun hxy => h x rfl hxy.1 y rfl hxy.2
      simp [replacePair, hpair]
  | case3 x y l hpair ih =>
    rw [cons_append, cons_append, replacePair, if_pos hpair, ih, cons_append]
    intro x hx
    exact h x (by cases l <;> simp_all)
  | case4 x y l hpair ih =>
    rw [cons_append, cons_append, replacePair, if_neg hpair, ← cons_append, ih,
      cons_append]
    simpa using h

lemma replacePair_eq_self {l : List α} (h : a ∉ l ∨ b ∉ l) : replacePair a b c l = l := by
  fun_induction replacePair a b c l with
  | case1 | case2 => rfl
  | case3 x y l hpair =>
    obtain ⟨rfl, rfl⟩ := hpair
    simp at h
  | case4 x y l hpair ih =>
    rw [ih (h.imp (fun hl hm => hl (mem_cons_of_mem x hm)) fun hl hm =>
      hl (mem_cons_of_mem x hm))]

lemma replacePair_suffix {r t : List α} (h : r <:+ t) (hhead : ∀ y ∈ r.head?, y ≠ b) :
    replacePair a b c r <:+ replacePair a b c t := by
  obtain ⟨l, rfl⟩ := h
  rw [replacePair_append fun _ _ _ => hhead]
  exact suffix_append _ _

lemma replacePair_eq_cons {s : α} {t r : List α} (h : replacePair a b c t = s :: r) :
    ∃ t', replacePair a b c t' = r ∧ (t = s :: t' ∨ s = c ∧ t = a :: b :: t') := by
  fun_cases replacePair a b c t with
  | case1 => simp [replacePair] at h
  | case2 x =>
    simp only [replacePair, List.cons.injEq] at h
    obtain ⟨rfl, rfl⟩ := h
    exact ⟨[], rfl, .inl rfl⟩
  | case3 x y t' hpair =>
    simp only [replacePair, if_pos hpair, List.cons.injEq] at h
    obtain ⟨rfl, rfl⟩ := hpair
    exact ⟨t', h.2, .inr ⟨h.1.symm, rfl⟩⟩
  | case4 x y t' hpair =>
    simp only [replacePair, hpair, if_false, List.cons.injEq] at h
    obtain ⟨rfl, hr⟩ := h
    exact ⟨y :: t', hr, .inl rfl⟩

lemma replacePair_cons {x : α} (h : x = a → c = x) (t : List α) :
    ∃ t', replacePair a b c (x :: t) = x :: t' := by
  cases t with
  | nil => exact ⟨[], rfl⟩
  | cons y t =>
    rw [replacePair]
    split
    · rename_i hpair
      exact ⟨_, by rw [h hpair.1]⟩
    · exact ⟨_, rfl⟩

lemma replacePair_eq_append {l t r : List α} (h : replacePair a b c t = l ++ r) (hc : c ∉ l) :
    ∃ t', t = l ++ t' ∧ replacePair a b c t' = r := by
  induction l generalizing t with
  | nil => exact ⟨t, rfl, h⟩
  | cons s l ih =>
    obtain ⟨t', htail, rfl | ⟨rfl, -⟩⟩ := replacePair_eq_cons h
    · obtain ⟨t'', rfl, hr⟩ := ih htail (fun hm => hc (mem_cons_of_mem s hm))
      exact ⟨t'', rfl, hr⟩
    · exact absurd mem_cons_self hc

lemma exists_suffix_of_replacePair {t r : List α} (h : r <:+ replacePair a b c t) :
    ∃ t', t' <:+ t ∧ replacePair a b c t' = r := by
  obtain ⟨l, h⟩ := h
  induction l generalizing t with
  | nil => exact ⟨t, suffix_refl t, h.symm⟩
  | cons s l ih =>
    obtain ⟨t', hr, ht⟩ := replacePair_eq_cons h.symm
    obtain ⟨t'', hsuffix, hr⟩ := ih hr.symm
    refine ⟨t'', hsuffix.trans ?_, hr⟩
    rcases ht with rfl | ⟨-, rfl⟩
    · exact suffix_cons s t'
    · exact suffix_append [a, b] t'

/-- A part that has neither of a pair is not touched. -/
theorem isInfix_replacePair {m t : List α} (h : m <:+: t) (ha : a ∉ m) (hb : b ∉ m) :
    m <:+: replacePair a b c t := by
  obtain ⟨l, r, rfl⟩ := h
  cases m with
  | nil => exact nil_infix
  | cons x m =>
    have hx : x ≠ b := fun h => hb (h ▸ mem_cons_self)
    rw [append_assoc, replacePair_append (by simp [hx]), replacePair_append,
      replacePair_eq_self (.inl ha)]
    · exact ⟨_, _, append_assoc ..⟩
    · exact fun y hy hya => absurd (mem_of_getLast? hy) (hya ▸ ha)

end Pair

/-! ## Words -/

section Words

variable (p : α → Bool) (sep : α)

/-- The words of a text: what stands between its gaps. -/
def words (t : List α) : List (List α) :=
  (t.splitOnP p).filter fun w => !w.isEmpty

/-- The rest of a text behind a word or, if a separator is pending, behind a gap. -/
def restForm : Bool → List α → List α
  | _, [] => []
  | pending, c :: r =>
    if p c then restForm true r
    else if pending then sep :: c :: restForm false r
    else c :: restForm false r

/-- A text with one separator for each gap between two words. -/
def squeeze (t : List α) : List α :=
  match t.dropWhile p with
  | [] => []
  | c :: r => c :: restForm p sep false r

variable {p sep}

lemma squeeze_cons_of_pos {c : α} {t : List α} (hc : p c = true) :
    squeeze p sep (c :: t) = squeeze p sep t := by
  simp [squeeze, hc]

lemma squeeze_cons_of_neg {c : α} {t : List α} (hc : p c = false) :
    squeeze p sep (c :: t) = c :: restForm p sep false t := by
  simp [squeeze, hc]

lemma restForm_eq (t : List α) :
    (∀ first rest, t.splitOnP p = first :: rest →
      restForm p sep false t =
        first ++ (rest.filter fun w => !w.isEmpty).flatMap fun w => [sep] ++ w) ∧
    restForm p sep true t = (words p t).flatMap fun w => [sep] ++ w := by
  induction t with
  | nil => simp [restForm, words, splitOnP_nil]
  | cons c r ih =>
    obtain ⟨first, rest, hsplit⟩ := exists_cons_of_ne_nil (splitOnP_ne_nil p r)
    by_cases hc : p c = true
    · simp only [restForm, hc, if_true, words, splitOnP_cons_eq_if_modifyHead,
        List.cons.injEq]
      refine ⟨?_, by simpa [words] using ih.2⟩
      rintro _ _ ⟨rfl, rfl⟩
      simpa [words] using ih.2
    · have hfirst := ih.1 first rest hsplit
      simp only [restForm, hc, words, splitOnP_cons_eq_if_modifyHead, hsplit,
        modifyHead_cons, List.cons.injEq, Bool.false_eq_true, if_false, if_true]
      refine ⟨?_, by simp [hfirst]⟩
      rintro _ _ ⟨rfl, rfl⟩
      rw [hfirst, cons_append]

lemma intercalate_words (t : List α) : List.intercalate [sep] (words p t) = squeeze p sep t := by
  induction t with
  | nil => simp [words, squeeze, splitOnP_nil, List.intercalate]
  | cons c r ih =>
    by_cases hc : p c = true
    · have hwords : words p (c :: r) = words p r := by
        simp [words, splitOnP_cons_eq_if_modifyHead, hc]
      rw [hwords, ih, squeeze_cons_of_pos hc]
    · obtain ⟨first, rest, hsplit⟩ := exists_cons_of_ne_nil (splitOnP_ne_nil p r)
      have hwords : words p (c :: r) = (c :: first) :: rest.filter fun w => !w.isEmpty := by
        simp [words, splitOnP_cons_eq_if_modifyHead, hc, hsplit]
      rw [hwords, Text.intercalate_cons, squeeze_cons_of_neg (by simpa using hc),
        (restForm_eq r).1 first rest hsplit, cons_append]

section Rest

variable {d : α} {w y z gap : List α}

lemma restForm_append (hw : ∀ c ∈ w, p c = false) :
    restForm p sep false (w ++ y) = w ++ restForm p sep false y := by
  induction w with
  | nil => rfl
  | cons c w ih =>
    rw [forall_mem_cons] at hw
    simp [restForm, hw.1, ih hw.2]

lemma restForm_true_eq_cons (h : restForm p sep true y = d :: z) :
    d = sep ∧ ∃ c gap y', y = gap ++ c :: y' ∧ (∀ c ∈ gap, p c = true) ∧ p c = false ∧
      z = c :: restForm p sep false y' := by
  induction y with
  | nil => simp [restForm] at h
  | cons c y ih =>
    by_cases hc : p c = true
    · simp only [restForm, hc, if_true] at h
      obtain ⟨hd, c', gap, y', rfl, hgap, hrest⟩ := ih h
      exact ⟨hd, c', c :: gap, y', rfl, forall_mem_cons.2 ⟨hc, hgap⟩, hrest⟩
    · simp only [restForm, hc, Bool.false_eq_true, if_false, if_true, List.cons.injEq] at h
      exact ⟨h.1.symm, c, [], y, rfl, by simp, by simpa using hc, h.2.symm⟩

lemma restForm_eq_append (hsep : p sep = true) (hw : ∀ c ∈ w, p c = false)
    (h : restForm p sep false y = w ++ z) : ∃ y', y = w ++ y' ∧ restForm p sep false y' = z := by
  induction w generalizing y with
  | nil => exact ⟨y, rfl, h⟩
  | cons d w ih =>
    rw [forall_mem_cons] at hw
    cases y with
    | nil => simp [restForm] at h
    | cons c y =>
      by_cases hc : p c = true
      · -- A gap would put the separator in the place of the word's first character.
        simp only [restForm, hc, if_true, cons_append] at h
        have hd := (restForm_true_eq_cons h).1
        exact absurd hw.1 (by simp [hd, hsep])
      · simp only [restForm, hc, Bool.false_eq_true, if_false, cons_append,
          List.cons.injEq] at h
        obtain ⟨rfl, h⟩ := h
        obtain ⟨y', rfl, hrest⟩ := ih hw.2 h
        exact ⟨y', rfl, hrest⟩

lemma restForm_eq_sep (hsep : p sep = true) (h : restForm p sep false y = sep :: d :: z) :
    ∃ gap y', y = gap ++ d :: y' ∧ gap ≠ [] ∧ (∀ c ∈ gap, p c = true) ∧
      restForm p sep false y' = z := by
  cases y with
  | nil => simp [restForm] at h
  | cons c y =>
    by_cases hc : p c = true
    · simp only [restForm, hc, if_true] at h
      obtain ⟨-, d', gap, y', rfl, hgap, -, hz⟩ := restForm_true_eq_cons h
      obtain ⟨rfl, rfl⟩ := List.cons.inj hz
      exact ⟨c :: gap, y', rfl, by simp, forall_mem_cons.2 ⟨hc, hgap⟩, rfl⟩
    · simp only [restForm, hc, Bool.false_eq_true, if_false, List.cons.injEq] at h
      exact absurd hsep (by simpa [← h.1] using hc)

variable (hd : p d = false)

include hd

lemma restForm_gap (hgap : ∀ c ∈ gap, p c = true) :
    restForm p sep true (gap ++ d :: y) = sep :: d :: restForm p sep false y := by
  induction gap with
  | nil => simp [restForm, hd]
  | cons c gap ih =>
    rw [forall_mem_cons] at hgap
    simp [restForm, hgap.1, ih hgap.2]

lemma restForm_gap_of_ne (hne : gap ≠ []) (hgap : ∀ c ∈ gap, p c = true) :
    restForm p sep false (gap ++ d :: y) = sep :: d :: restForm p sep false y := by
  obtain ⟨c, gap, rfl⟩ := exists_cons_of_ne_nil hne
  rw [forall_mem_cons] at hgap
  simp [restForm, hgap.1, restForm_gap hd hgap.2]

lemma exists_suffix_of_restForm (hsep : p sep = true) {pending : Bool}
    (h : d :: z <:+ restForm p sep pending y) :
    ∃ y', d :: y' <:+ y ∧ restForm p sep false y' = z := by
  have hne : d ≠ sep := by
    rintro rfl
    simp [hsep] at hd
  induction y generalizing pending with
  | nil => simp [restForm] at h
  | cons c y ih =>
    have htail : ∀ {pending}, d :: z <:+ restForm p sep pending y →
        ∃ y', d :: y' <:+ c :: y ∧ restForm p sep false y' = z := fun h => by
      obtain ⟨y', hsuffix, hrest⟩ := ih h
      exact ⟨y', hsuffix.trans (suffix_cons c y), hrest⟩
    have hword : d :: z <:+ c :: restForm p sep false y →
        ∃ y', d :: y' <:+ c :: y ∧ restForm p sep false y' = z := fun h => by
      rcases suffix_cons_iff.1 h with heq | h
      · obtain ⟨rfl, rfl⟩ := List.cons.inj heq
        exact ⟨y, suffix_refl _, rfl⟩
      · exact htail h
    simp only [restForm] at h
    split_ifs at h
    · exact htail h
    · rcases suffix_cons_iff.1 h with heq | h
      · exact absurd (List.cons.inj heq).1 hne
      · exact hword h
    · exact hword h

lemma exists_suffix_of_squeeze (hsep : p sep = true) {t : List α}
    (h : d :: z <:+ squeeze p sep t) : ∃ y, d :: y <:+ t ∧ restForm p sep false y = z := by
  induction t with
  | nil => simp [squeeze] at h
  | cons c t ih =>
    by_cases hc : p c = true
    · rw [squeeze_cons_of_pos hc] at h
      obtain ⟨y, hy, hrest⟩ := ih h
      exact ⟨y, hy.trans (suffix_cons c t), hrest⟩
    · rw [squeeze_cons_of_neg (by simpa using hc)] at h
      rcases suffix_cons_iff.1 h with hcons | h
      · obtain ⟨rfl, rfl⟩ := List.cons.inj hcons
        exact ⟨t, suffix_refl _, rfl⟩
      · obtain ⟨y, hy, hrest⟩ := exists_suffix_of_restForm hd hsep h
        exact ⟨y, hy.trans (suffix_cons c t), hrest⟩

lemma suffix_restForm (l : List α) (pending : Bool) :
    d :: restForm p sep false y <:+ restForm p sep pending (l ++ d :: y) := by
  induction l generalizing pending with
  | nil =>
    cases pending
    · simp [restForm, hd]
    · simp [restForm, hd]
  | cons c l ih =>
    simp only [cons_append, restForm]
    split_ifs
    · exact ih true
    · exact (ih false).trans (suffix_append [sep, c] _)
    · exact (ih false).trans (suffix_cons c _)

lemma suffix_squeeze (l : List α) :
    d :: restForm p sep false y <:+ squeeze p sep (l ++ d :: y) := by
  induction l with
  | nil => simp [squeeze_cons_of_neg hd]
  | cons c l ih =>
    rw [cons_append]
    by_cases hc : p c = true
    · rwa [squeeze_cons_of_pos hc]
    · rw [squeeze_cons_of_neg (by simpa using hc)]
      exact (suffix_restForm hd l false).trans (suffix_cons c _)

end Rest

end Words

/-! ## Phrases -/

section Phrase

variable (p : α → Bool) (stop : α)

/-- A text spells words: a gap between two of them, and behind the last one, with or without a gap,
the stop. -/
inductive Spells : List (List α) → List α → Prop
  | last (w : List α) {gap : List α} (hgap : ∀ c ∈ gap, p c = true) :
      Spells [w] (w ++ gap ++ [stop])
  | cons (w : List α) {ws : List (List α)} {gap rest : List α} (hne : gap ≠ [])
      (hgap : ∀ c ∈ gap, p c = true) (hrest : Spells ws rest) : Spells (w :: ws) (w ++ gap ++ rest)

variable {p stop} {sep : α} {ws : List (List α)} {w : List α}

lemma Spells.cons_head {d : α} {m : List α} (h : Spells p stop (w :: ws) m) :
    Spells p stop ((d :: w) :: ws) (d :: m) := by
  cases h with
  | last _ hgap => exact .last (d :: w) hgap
  | cons _ hne hgap hrest => exact .cons (d :: w) hne hgap hrest

lemma Spells.forall_mem {P : α → Prop} {m : List α} (h : Spells p stop ws m)
    (hws : ∀ w ∈ ws, ∀ c ∈ w, P c) (hgap : ∀ c, p c = true → P c) (hstop : P stop) :
    ∀ c ∈ m, P c := by
  induction h with
  | last w hg =>
    simp only [forall_mem_append, forall_mem_singleton]
    exact ⟨⟨hws w mem_cons_self, fun c hc => hgap c (hg c hc)⟩, hstop⟩
  | cons w hne hg hrest ih =>
    obtain ⟨hw, hws⟩ := forall_mem_cons.1 hws
    simp only [forall_mem_append]
    exact ⟨⟨hw, fun c hc => hgap c (hg c hc)⟩, ih hws⟩

/-- A word that can be searched for: not empty, with no gap and no stop in it. -/
structure Plain (p : α → Bool) (stop : α) (w : List α) : Prop where
  ne_nil : w ≠ []
  gap_free : ∀ c ∈ w, p c = false
  stop_free : stop ∉ w

/-- The words, each behind a separator. -/
def tailLine (sep : α) (ws : List (List α)) : List α :=
  ws.flatMap fun w => [sep] ++ w

/-- A rest that begins as the words do, spells them. -/
theorem spells_of_restForm (hsep : p sep = true) (hstop : p stop = false)
    (hws : ∀ v ∈ ws, Plain p stop v) (hw : ∀ c ∈ w, p c = false) {g y z : List α}
    (hg : g = [] ∨ g = [sep])
    (h : restForm p sep false y = w ++ (tailLine sep ws ++ (g ++ stop :: z))) :
    ∃ m rest, y = m ++ rest ∧ Spells p stop (w :: ws) m := by
  induction ws generalizing w y with
  | nil =>
    obtain ⟨y', rfl, hy⟩ := restForm_eq_append hsep hw h
    simp only [tailLine, flatMap_nil, nil_append] at hy
    rcases hg with rfl | rfl
    · obtain ⟨rest, rfl, -⟩ := restForm_eq_append (w := [stop]) hsep (by simpa using hstop) hy
      exact ⟨w ++ [] ++ [stop], rest, by simp, .last w (by simp)⟩
    · obtain ⟨gap, rest, rfl, -, hgap, -⟩ := restForm_eq_sep hsep hy
      exact ⟨w ++ gap ++ [stop], rest, by simp, .last w hgap⟩
  | cons v ws ih =>
    obtain ⟨hv, hvs⟩ := forall_mem_cons.1 hws
    obtain ⟨d, v, rfl⟩ := exists_cons_of_ne_nil hv.ne_nil
    obtain ⟨y', rfl, hy⟩ := restForm_eq_append hsep hw h
    simp only [tailLine, flatMap_cons, append_assoc, cons_append,
      nil_append] at hy
    obtain ⟨gap, y'', rfl, hne, hgap, hy⟩ := restForm_eq_sep hsep hy
    have hv' : ∀ c ∈ v, p c = false := fun c hc => hv.gap_free c (mem_cons_of_mem d hc)
    obtain ⟨m, rest, rfl, hm⟩ := ih hvs hv' hy
    exact ⟨w ++ gap ++ d :: m, rest, by simp, .cons w hne hgap hm.cons_head⟩

lemma Spells.of_cons_head {d : α} {m : List α} (h : Spells p stop ((d :: w) :: ws) m) :
    ∃ m', m = d :: m' ∧ Spells p stop (w :: ws) m' := by
  cases h with
  | @last _ gap hgap => exact ⟨w ++ gap ++ [stop], rfl, .last w hgap⟩
  | @cons _ _ gap rest hne hgap hrest => exact ⟨w ++ gap ++ rest, rfl, .cons w hne hgap hrest⟩

/-- What a text that spells words is squeezed to. -/
theorem Spells.exists_restForm {m : List α} (h : Spells p stop (w :: ws) m)
    (hstop : p stop = false) (hws : ∀ v ∈ ws, Plain p stop v) (hw : ∀ c ∈ w, p c = false)
    (rest : List α) :
    ∃ g z, (g = [] ∨ g = [sep]) ∧
      restForm p sep false (m ++ rest) = w ++ (tailLine sep ws ++ (g ++ stop :: z)) := by
  induction ws generalizing w m with
  | nil =>
    cases h with
    | @last _ gap hgap =>
      have hrest : w ++ gap ++ [stop] ++ rest = w ++ (gap ++ stop :: rest) := by simp
      rw [hrest, restForm_append hw]
      cases gap with
      | nil => exact ⟨[], restForm p sep false rest, .inl rfl, by simp [tailLine, restForm, hstop]⟩
      | cons c gap =>
        refine ⟨[sep], restForm p sep false rest, .inr rfl, ?_⟩
        rw [restForm_gap_of_ne hstop (by simp) hgap]
        rfl
    | cons _ _ _ hnil => cases hnil
  | cons v ws ih =>
    obtain ⟨hv, hvs⟩ := forall_mem_cons.1 hws
    obtain ⟨d, v, rfl⟩ := exists_cons_of_ne_nil hv.ne_nil
    obtain ⟨hd, hv'⟩ := forall_mem_cons.1 hv.gap_free
    cases h with
    | @cons _ _ gap _ hne hgap hspells =>
      obtain ⟨m, rfl, hm⟩ := hspells.of_cons_head
      obtain ⟨g, z, hg, heq⟩ := ih hm hvs hv'
      refine ⟨g, z, hg, ?_⟩
      have hrest : w ++ gap ++ d :: m ++ rest = w ++ (gap ++ d :: (m ++ rest)) := by simp
      rw [hrest, restForm_append hw, restForm_gap_of_ne hd hne hgap, heq]
      simp [tailLine]

lemma getLast_line (hws : ∀ v ∈ w :: ws, Plain p stop v) :
    ∀ x ∈ (w ++ tailLine sep ws).getLast?, p x = false := by
  induction ws generalizing w with
  | nil =>
    intro x hx
    have hmem : x ∈ w := mem_of_getLast? (by simpa [tailLine] using hx)
    exact (hws w mem_cons_self).gap_free x hmem
  | cons v ws ih =>
    intro x hx
    obtain ⟨-, hws⟩ := forall_mem_cons.1 hws
    have hne : v ++ tailLine sep ws ≠ [] := by simp [(hws v mem_cons_self).ne_nil]
    refine ih hws x ?_
    have hline : w ++ tailLine sep (v :: ws) = w ++ [sep] ++ (v ++ tailLine sep ws) := by
      simp [tailLine]
    rw [hline, getLast?_append_of_ne_nil _ hne] at hx
    exact hx

variable [DecidableEq α]

/-- The words of a text joined by the separator, without separators next to a stop. -/
def form (p : α → Bool) (sep stop : α) (t : List α) : List α :=
  replacePair stop sep stop (replacePair sep stop stop (List.intercalate [sep] (words p t)))

/-- The words are found in the normal form, with a stop, iff a part of the text spells them. -/
theorem isInfix_form_iff (hsep : p sep = true) (hstop : p stop = false)
    (hws : ∀ v ∈ w :: ws, Plain p stop v) {t : List α} :
    List.intercalate [sep] (w :: ws) ++ [stop] <:+: form p sep stop t ↔
      ∃ m, m <:+: t ∧ Spells p stop (w :: ws) m := by
  obtain ⟨hw, hws'⟩ := forall_mem_cons.1 hws
  have hne : stop ≠ sep := by
    rintro rfl
    simp [hsep] at hstop
  have hline : List.intercalate [sep] (w :: ws) = w ++ tailLine sep ws :=
    Text.intercalate_cons _ _ _
  have hfree : stop ∉ w ++ tailLine sep ws := by
    intro hm
    simp only [tailLine, mem_append, mem_flatMap, mem_singleton] at hm
    rcases hm with hm | ⟨v, hv, hm | hm⟩
    · exact hw.stop_free hm
    · exact hne hm
    · exact (hws' v hv).stop_free hm
  obtain ⟨d, w, rfl⟩ := exists_cons_of_ne_nil hw.ne_nil
  obtain ⟨hd, hw'⟩ := forall_mem_cons.1 hw.gap_free
  rw [hline, form, intercalate_words]
  constructor
  · rintro ⟨l, r, heq⟩
    -- Back through the two replacements to the squeezed text, then to the text.
    have hlast : (d :: w) ++ tailLine sep ws ++ stop :: r <:+
        replacePair stop sep stop (replacePair sep stop stop (squeeze p sep t)) :=
      ⟨l, by simp [← heq]⟩
    obtain ⟨t₂, hsuffix, h₂⟩ := exists_suffix_of_replacePair hlast
    obtain ⟨r₂, rfl, hr₂⟩ := replacePair_eq_append h₂ hfree
    obtain ⟨r₂', -, hr₂⟩ := replacePair_eq_cons hr₂
    have hstop₂ : ∃ z, r₂ = stop :: z := by
      rcases hr₂ with rfl | ⟨-, rfl⟩
      · exact ⟨_, rfl⟩
      · exact ⟨_, rfl⟩
    obtain ⟨z₂, rfl⟩ := hstop₂
    obtain ⟨t₁, hsuffix, h₁⟩ := exists_suffix_of_replacePair hsuffix
    obtain ⟨r₁, rfl, hr₁⟩ := replacePair_eq_append h₁ hfree
    obtain ⟨z₁, -, hr₁⟩ := replacePair_eq_cons hr₁
    have hstop₁ : ∃ g, (g = [] ∨ g = [sep]) ∧ r₁ = g ++ stop :: z₁ := by
      rcases hr₁ with rfl | ⟨-, rfl⟩
      · exact ⟨[], .inl rfl, rfl⟩
      · exact ⟨[sep], .inr rfl, rfl⟩
    obtain ⟨g, hg, rfl⟩ := hstop₁
    obtain ⟨y, hy, hrest⟩ := exists_suffix_of_squeeze hd hsep (by simpa using hsuffix)
    obtain ⟨m, rest, rfl, hm⟩ := spells_of_restForm hsep hstop hws' hw' hg hrest
    refine ⟨d :: m, ?_, hm.cons_head⟩
    exact (prefix_append (d :: m) rest).isInfix.trans hy.isInfix
  · rintro ⟨_, ⟨l, r, rfl⟩, hspells⟩
    obtain ⟨m, rfl, hm⟩ := hspells.of_cons_head
    obtain ⟨g, z, hg, heq⟩ : ∃ g z, (g = [] ∨ g = [sep]) ∧
        restForm p sep false (m ++ r) = w ++ (tailLine sep ws ++ (g ++ stop :: z)) :=
      hm.exists_restForm hstop hws' hw' r
    have hdstop : d ≠ stop := fun h => hw.stop_free (by simp [h])
    have hdsep : d ≠ sep := by
      rintro rfl
      simp [hsep] at hd
    have h₀ : (d :: w) ++ tailLine sep ws ++ (g ++ stop :: z) <:+
        squeeze p sep (l ++ (d :: m) ++ r) := by
      have hsuffix : d :: restForm p sep false (m ++ r) <:+ squeeze p sep (l ++ d :: (m ++ r)) :=
        suffix_squeeze hd l
      rw [heq] at hsuffix
      simpa using hsuffix
    have h₁ := replacePair_suffix (a := sep) (b := stop) (c := stop) h₀ (by simpa using hdstop)
    have hlast : ∀ x ∈ (d :: w ++ tailLine sep ws).getLast?, p x = false := getLast_line hws
    rw [replacePair_append (fun x hx hxsep => absurd hsep (by simp [← hxsep, hlast x hx])),
      replacePair_eq_self (.inr hfree)] at h₁
    have hz₁ : ∃ z₁, replacePair sep stop stop (g ++ stop :: z) = stop :: z₁ := by
      rcases hg with rfl | rfl
      · exact replacePair_cons (fun h => absurd h hne) z
      · exact ⟨replacePair sep stop stop z, by simp [replacePair]⟩
    obtain ⟨z₁, hz₁⟩ := hz₁
    rw [hz₁] at h₁
    have h₂ := replacePair_suffix (a := stop) (b := sep) (c := stop) h₁ (by simpa using hdsep)
    rw [replacePair_append (fun x hx hxstop => absurd (mem_of_getLast? hx) (hxstop ▸ hfree)),
      replacePair_eq_self (.inl hfree)] at h₂
    obtain ⟨z₂, hz₂⟩ := replacePair_cons (a := stop) (b := sep) (c := stop) (fun _ => rfl) z₁
    rw [hz₂, append_cons] at h₂
    exact (prefix_append _ z₂).isInfix.trans h₂.isInfix

end Phrase

end Wamn.Lib.TextForm
