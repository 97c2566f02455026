import Mathlib.Data.List.Chain
import Mathlib.Data.List.TakeWhile
import Wamn.Numbering.Pattern

/-!
# The grammar of document number patterns

The grammar as the documentation of patterns states it, as spelled syntax trees, and the proof that
the parser scans exactly the texts that they spell. Literal text has no braces. A key that names a
counter of the pattern refers to it; any other name is a field.
-/

namespace Wamn.Numbering

open List Lib Lib.Decimal Lib.Dependency Lib.Text

/-! ## Syntax trees -/

/-- Lower-case ASCII letters, digits and `_`, not starting with a digit. -/
structure IsName (name : String) : Prop where
  nonempty : name.toList ≠ []
  chars : ∀ c ∈ name.toList, c.isLower = true ∨ c.isDigit = true ∨ c = '_'
  start : ∀ c ∈ name.toList.head?, c.isDigit = false

structure IsWidth (digits : List Char) : Prop where
  nonempty : digits ≠ []
  numeric : ∀ c ∈ digits, c.isDigit = true
  positive : 1 ≤ Nat.ofDigitChars 10 digits 0
  bounded : Nat.ofDigitChars 10 digits 0 ≤ maxWidth

instance : DecidablePred IsName := fun name =>
  decidable_of_iff (name.toList ≠ [] ∧
      (∀ c ∈ name.toList, c.isLower = true ∨ c.isDigit = true ∨ c = '_') ∧
      ∀ c ∈ name.toList.head?, c.isDigit = false)
    ⟨fun ⟨hne, hchars, hstart⟩ => ⟨hne, hchars, hstart⟩, fun h => ⟨h.nonempty, h.chars, h.start⟩⟩

instance : DecidablePred IsWidth := fun digits =>
  decidable_of_iff (digits ≠ [] ∧ (∀ c ∈ digits, c.isDigit = true) ∧
      1 ≤ Nat.ofDigitChars 10 digits 0 ∧ Nat.ofDigitChars 10 digits 0 ≤ maxWidth)
    ⟨fun ⟨hne, hnumeric, hpos, hmax⟩ => ⟨hne, hnumeric, hpos, hmax⟩,
      fun h => ⟨h.nonempty, h.numeric, h.positive, h.bounded⟩⟩

/-- `<key>`: `date:FMT`, or a name. -/
inductive KeyText where
  | date (format : DateFormat)
  | named (name : String)

namespace KeyText

def spell : KeyText → List Char
  | .date format => "date:".toList ++ format.asStr.toList
  | .named name => name.toList

def Valid : KeyText → Prop
  | .date _ => True
  | .named name => IsName name

instance : DecidablePred Valid
  | .date _ => .isTrue trivial
  | .named name => inferInstanceAs (Decidable (IsName name))

end KeyText

inductive OptionText where
  | reset (key : KeyText)
  | per (key : KeyText)
  | width (digits : List Char)
  | zero (digits : List Char)
  | pad (c : Char)
  | hex

/-- The options as the documentation of the module lists them. -/
inductive OptionWord where
  | reset
  | per
  | width
  | pad
  | hex
  deriving DecidableEq

/-- What an option is about. `reset=` and `per=` both give the scope. -/
inductive OptionKind where
  | scope
  | width
  | pad
  | hex
  deriving DecidableEq

namespace OptionText

def spell : OptionText → List Char
  | .reset key => "reset=".toList ++ key.spell
  | .per key => "per=".toList ++ key.spell
  | .width digits => "width=".toList ++ digits
  | .zero digits => '0' :: digits
  | .pad c => "pad=".toList ++ [c]
  | .hex => "hex".toList

def word : OptionText → OptionWord
  | .reset _ => .reset
  | .per _ => .per
  | .width _ => .width
  | .zero _ => .width
  | .pad _ => .pad
  | .hex => .hex

def kind : OptionText → OptionKind
  | .reset _ => .scope
  | .per _ => .scope
  | .width _ => .width
  | .zero _ => .width
  | .pad _ => .pad
  | .hex => .hex

/-- Keys are keys, widths are widths, and a pad character does not end the option or the token. -/
def Valid : OptionText → Prop
  | .reset key => key.Valid
  | .per key => key.Valid
  | .width digits => IsWidth digits
  | .zero digits => IsWidth digits
  | .pad c => c ≠ ',' ∧ isBrace c = false
  | .hex => True

instance : DecidablePred Valid
  | .reset key => inferInstanceAs (Decidable key.Valid)
  | .per key => inferInstanceAs (Decidable key.Valid)
  | .width digits => inferInstanceAs (Decidable (IsWidth digits))
  | .zero digits => inferInstanceAs (Decidable (IsWidth digits))
  | .pad c => inferInstanceAs (Decidable (c ≠ ',' ∧ isBrace c = false))
  | .hex => .isTrue trivial

def Names (b : String) (o : OptionText) : Prop := o = .reset (.named b) ∨ o = .per (.named b)

end OptionText

inductive Item where
  | literal (text : String)
  | field (name : String)
  | date (format : DateFormat)
  | seq (name : String) (options : List OptionText)

namespace Item

def kind : Item → String
  | .literal _ => ""
  | .field _ => "field"
  | .date _ => "date"
  | .seq _ _ => "seq"

def payload : Item → List Char
  | .literal _ => []
  | .field name => name.toList
  | .date format => format.asStr.toList
  | .seq name options => [','].intercalate (name.toList :: options.map OptionText.spell)

def spell : Item → List Char
  | .literal text => text.toList
  | item => '\x7b' :: (item.kind.toList ++ ':' :: item.payload) ++ ['\x7d']

def Valid : Item → Prop
  | .literal text => text.toList ≠ [] ∧ ∀ c ∈ text.toList, isBrace c = false
  | .field name => IsName name
  | .date _ => True
  | .seq name options => IsName name ∧ ∀ o ∈ options, o.Valid

/-- No two options of a counter are about the same. -/
def Once {κ : Type} (about : OptionText → κ) : Item → Prop
  | .seq _ options => (options.map about).Nodup
  | _ => True

instance : DecidablePred Valid
  | .literal text =>
    inferInstanceAs (Decidable (text.toList ≠ [] ∧ ∀ c ∈ text.toList, isBrace c = false))
  | .field name => inferInstanceAs (Decidable (IsName name))
  | .date _ => .isTrue trivial
  | .seq name options => inferInstanceAs (Decidable (IsName name ∧ ∀ o ∈ options, o.Valid))

instance {κ : Type} [DecidableEq κ] (about : OptionText → κ) : DecidablePred (Once about)
  | .literal _ | .field _ | .date _ => .isTrue trivial
  | .seq _ options => inferInstanceAs (Decidable (options.map about).Nodup)

def isLiteral : Item → Bool
  | .literal _ => true
  | _ => false

def counterName? : Item → Option String
  | .seq name _ => some name
  | _ => none

end Item

def counterNames (items : List Item) : List String := items.filterMap Item.counterName?

/-- The key of the counter `a` names the counter `b`. -/
def Refers (items : List Item) (a b : String) : Prop :=
  ∃ options, Item.seq a options ∈ items ∧ (∃ o ∈ options, o.Names b) ∧ b ∈ counterNames items

/-- No two stretches of literal text stand in a row. -/
def Alternating (items : List Item) : Prop :=
  items.IsChain fun a b => a.isLiteral = false ∨ b.isLiteral = false

/-- Every counter is stated once, with every option at most once. -/
structure IsPattern {κ : Type} (about : OptionText → κ) (items : List Item) : Prop where
  valid : ∀ item ∈ items, item.Valid
  once : ∀ item ∈ items, item.Once about
  alternating : Alternating items
  counters : (counterNames items).Nodup

/-- The texts that the grammar generates, where the keys of counters form no cycle. -/
def Generated {κ : Type} (about : OptionText → κ) (text : String) : Prop :=
  ∃ items, IsPattern about items ∧ items.flatMap Item.spell = text.toList ∧
    ∀ name, ¬ Relation.TransGen (Refers items) name name

/-! ## What syntax trees mean -/

def KeyText.meaning (st : CounterOptions) : KeyText → Key × Option String
  | .date format => (.date format, st.key)
  | .named name => (.field "", some name)

namespace OptionText

def apply (st : CounterOptions) : OptionText → CounterOptions
  | .reset key => { st with scope := .reset (key.meaning st).1, key := (key.meaning st).2 }
  | .per key => { st with scope := .per (key.meaning st).1, key := (key.meaning st).2 }
  | .width digits => { st with width := some (Nat.ofDigitChars 10 digits 0) }
  | .zero digits => { st with width := some (Nat.ofDigitChars 10 digits 0) }
  | .pad c => { st with pad := some c }
  | .hex => { st with hex := true }

end OptionText

def CounterOptions.Free (st : CounterOptions) : OptionKind → Prop
  | .scope => st.scope = .always
  | .width => st.width = none
  | .pad => st.pad = none
  | .hex => st.hex = false

/-- A part as it is scanned, with the name of its key that is yet to be resolved. -/
def Item.scanned : Item → Part × Option String
  | .literal text => (.literal text, none)
  | .field name => (.field name, none)
  | .date format => (.date format, none)
  | .seq name options =>
    let st := options.foldl OptionText.apply {}
    (.counter { name, scope := st.scope, width := st.width, pad := st.pad.getD '0', hex := st.hex },
      st.key)

def meaning (items : List Item) : Pattern :=
  { parts := (items.map Item.scanned).map (resolvePart (counterNames items)) }

/-! ## Names, formats and keys -/

lemma isDigit_eq_false_of_isLower {c : Char} (h : c.isLower = true) : c.isDigit = false := by
  have hlow : 'a'.val ≤ c.val := of_decide_eq_true (Bool.and_eq_true_iff.1 h).1
  refine Bool.and_eq_false_iff.2 (.inr (decide_eq_false fun hhigh => ?_))
  exact absurd (UInt32.le_trans hlow hhigh) (by decide)

variable {name : String} {text digits : List Char} {scanned : Part × Option String} {item : Item}

lemma identifier_eq_ok {what : String} :
    identifier what text = .ok name ↔ text = name.toList ∧ IsName name := by
  have hname : ∀ {text : List Char}, String.ofList text = name ↔ text = name.toList :=
    fun {text} =>
      ⟨fun h => by rw [← h, String.toList_ofList], fun h => by rw [h, String.ofList_toList]⟩
  unfold identifier
  cases text with
  | nil =>
    simp only [Bool.false_eq_true, if_false, reduceCtorEq, false_iff]
    rintro ⟨htext, hvalid⟩
    exact hvalid.nonempty htext.symm
  | cons first rest =>
    simp only [Bool.and_eq_true, Bool.or_eq_true, decide_eq_true_eq, all_eq_true]
    split
    · rename_i hvalid
      rw [Except.ok.injEq, hname]
      refine ⟨fun h => ⟨h, ?_, ?_, ?_⟩, And.left⟩
      · rw [← h]
        exact cons_ne_nil _ _
      · rw [← h]
        intro c hc
        rcases mem_cons.1 hc with rfl | hc
        · exact hvalid.1.imp_right .inr
        · exact or_assoc.1 (hvalid.2 c hc)
      · rw [← h]
        rintro c ⟨⟩
        rcases hvalid.1 with hlower | rfl
        · exact isDigit_eq_false_of_isLower hlower
        · rfl
    · rename_i hvalid
      simp only [reduceCtorEq, false_iff]
      rintro ⟨htext, hvalid'⟩
      have hchars := hvalid'.chars
      have hstart := hvalid'.start
      rw [← htext] at hchars hstart
      refine hvalid ⟨?_, fun c hc => or_assoc.2 (hchars c (mem_cons_of_mem _ hc))⟩
      rcases hchars first mem_cons_self with hlower | hdigit | heq
      · exact .inl hlower
      · rw [hstart first rfl] at hdigit
        cases hdigit
      · exact .inr heq

lemma dateFormat_eq_ok {format : DateFormat} :
    dateFormat text = .ok format ↔ text = format.asStr.toList := by
  constructor
  · intro h
    unfold dateFormat at h
    split at h
    · rename_i candidate hfind
      obtain rfl := Except.ok.inj h
      simpa [eq_comm] using find?_some hfind
    · cases h
  · rintro rfl
    cases format with
    | year | shortYear | month | day | week | quarter => rfl

lemma IsName.notMem (h : IsName name) {c : Char}
    (hc : c.isLower = false ∧ c.isDigit = false ∧ c ≠ '_') : c ∉ name.toList := by
  intro hmem
  rcases h.chars c hmem with hlower | hdigit | heq
  · rw [hc.1] at hlower
    cases hlower
  · rw [hc.2.1] at hdigit
    cases hdigit
  · exact hc.2.2 heq

lemma readKey_eq_ok {st : CounterOptions} {value : List Char} {read : Key × Option String} :
    st.readKey value = .ok read ↔
      ∃ key : KeyText, key.Valid ∧ key.spell = value ∧ key.meaning st = read := by
  unfold CounterOptions.readKey
  split
  · rename_i format hdate
    obtain rfl := isPrefixOf?_eq_some_iff_append_eq.1 hdate
    rw [bind_eq_ok]
    constructor
    · rintro ⟨f, hf, hread⟩
      obtain rfl := dateFormat_eq_ok.1 hf
      exact ⟨.date f, trivial, rfl, pure_eq_ok.1 hread⟩
    · rintro ⟨key, hvalid, hspell, rfl⟩
      cases key with
      | date f => exact ⟨f, dateFormat_eq_ok.2 (append_cancel_left hspell).symm, rfl⟩
      | named name =>
        -- A name has no colon.
        have hcolon : ':' ∈ name.toList := by
          rw [show name.toList = "date:".toList ++ format from hspell]
          exact mem_append_left _ (by decide)
        exact absurd hcolon (hvalid.notMem (by decide))
  · rename_i hdate
    rw [bind_eq_ok]
    constructor
    · rintro ⟨name, hname, hread⟩
      obtain ⟨rfl, hvalid⟩ := identifier_eq_ok.1 hname
      exact ⟨.named name, hvalid, rfl, pure_eq_ok.1 hread⟩
    · rintro ⟨key, hvalid, rfl, rfl⟩
      cases key with
      | date f =>
        have hsome : "date:".toList.isPrefixOf? (KeyText.spell (.date f)) = some f.asStr.toList :=
          isPrefixOf?_eq_some_iff_append_eq.2 rfl
        rw [hsome] at hdate
        cases hdate
      | named name => exact ⟨name, identifier_eq_ok.2 ⟨rfl, hvalid⟩, rfl⟩

/-! ## Options -/

lemma widthValue_eq_some {width : ℕ} :
    widthValue digits = some width ↔ IsWidth digits ∧ Nat.ofDigitChars 10 digits 0 = width := by
  unfold widthValue parseDigits
  rw [← Nat.ofDigitChars_eq_foldl]
  split
  · rename_i hdigits
    rw [Option.filter_some]
    simp only [Bool.and_eq_true, decide_eq_true_eq]
    split
    · rename_i hrange
      rw [Option.some.injEq]
      exact ⟨fun h => ⟨⟨hdigits.1, all_eq_true.1 hdigits.2, hrange.1.2, hrange.2⟩, h⟩, And.right⟩
    · rename_i hrange
      simp only [reduceCtorEq, false_iff]
      rintro ⟨hwidth, -⟩
      have hbounded := hwidth.bounded
      have : maxWidth < 2 ^ 16 := by decide
      exact hrange ⟨⟨by omega, hwidth.positive⟩, hbounded⟩
  · rename_i hdigits
    simp only [Option.filter_none, reduceCtorEq, false_iff]
    rintro ⟨hwidth, -⟩
    exact hdigits ⟨hwidth.nonempty, all_eq_true.2 hwidth.numeric⟩

section Options

variable {st st' : CounterOptions} {invalid : String → PatternError} {value : List Char}

lemma readScope_eq_ok {scope : Key → Scope} :
    st.readScope invalid scope value = .ok st' ↔ st.Free .scope ∧ ∃ key : KeyText, key.Valid ∧
      key.spell = value ∧
        { st with scope := scope (key.meaning st).1, key := (key.meaning st).2 } = st' := by
  unfold CounterOptions.readScope
  simp only [bind_eq_ok, ensure_eq_ok, decide_eq_true_eq, pure_eq_ok, readKey_eq_ok]
  constructor
  · rintro ⟨-, hfree, _, ⟨key, hvalid, hspell, rfl⟩, rfl⟩
    exact ⟨hfree, key, hvalid, hspell, rfl⟩
  · rintro ⟨hfree, key, hvalid, hspell, rfl⟩
    exact ⟨⟨⟩, hfree, _, ⟨key, hvalid, hspell, rfl⟩, rfl⟩

lemma readWidth_eq_ok :
    st.readWidth invalid value = .ok st' ↔ st.Free .width ∧ IsWidth value ∧
      { st with width := some (Nat.ofDigitChars 10 value 0) } = st' := by
  unfold CounterOptions.readWidth
  rw [bind_eq_ok]
  simp only [ensure_eq_ok, decide_eq_true_eq]
  constructor
  · rintro ⟨-, hfree, h⟩
    split at h
    · rename_i width hwidth
      obtain ⟨hvalid, rfl⟩ := widthValue_eq_some.1 hwidth
      exact ⟨hfree, hvalid, pure_eq_ok.1 h⟩
    · cases h
  · rintro ⟨hfree, hvalid, rfl⟩
    refine ⟨⟨⟩, hfree, ?_⟩
    rw [widthValue_eq_some.2 ⟨hvalid, rfl⟩]
    rfl

lemma readPad_eq_ok :
    st.readPad invalid value = .ok st' ↔
      ∃ c, [c] = value ∧ st.Free .pad ∧ { st with pad := some c } = st' := by
  unfold CounterOptions.readPad
  split
  · rename_i c
    simp only [bind_eq_ok, ensure_eq_ok, decide_eq_true_eq, pure_eq_ok]
    constructor
    · rintro ⟨-, hfree, rfl⟩
      exact ⟨c, rfl, hfree, rfl⟩
    · rintro ⟨c', hc, hfree, rfl⟩
      obtain rfl := singleton_inj.1 hc
      exact ⟨⟨⟩, hfree, rfl⟩
  · rename_i hvalue
    constructor
    · exact nofun
    · rintro ⟨c, rfl, -⟩
      exact absurd rfl (hvalue c)

lemma read_eq_ok {name : String} {option : List Char} (hcomma : ',' ∉ option)
    (hbrace : ∀ c ∈ option, isBrace c = false) :
    st.read name option = .ok st' ↔
      ∃ o : OptionText, o.Valid ∧ o.spell = option ∧ st.Free o.kind ∧ o.apply st = st' := by
  constructor
  · -- The branches of the loop are the options.
    intro h
    unfold CounterOptions.read at h
    split at h
    · rename_i value hoption
      obtain rfl := isPrefixOf?_eq_some_iff_append_eq.1 hoption
      obtain ⟨hfree, key, hvalid, rfl, rfl⟩ := readScope_eq_ok.1 h
      exact ⟨.reset key, hvalid, rfl, hfree, rfl⟩
    split at h
    · rename_i value hoption
      obtain rfl := isPrefixOf?_eq_some_iff_append_eq.1 hoption
      obtain ⟨hfree, key, hvalid, rfl, rfl⟩ := readScope_eq_ok.1 h
      exact ⟨.per key, hvalid, rfl, hfree, rfl⟩
    split at h
    · rename_i value hoption
      obtain rfl := isPrefixOf?_eq_some_iff_append_eq.1 hoption
      obtain ⟨hfree, hvalid, rfl⟩ := readWidth_eq_ok.1 h
      exact ⟨.width value, hvalid, rfl, hfree, rfl⟩
    split at h
    · obtain ⟨hfree, hvalid, rfl⟩ := readWidth_eq_ok.1 h
      exact ⟨.zero _, hvalid, rfl, hfree, rfl⟩
    split at h
    · rename_i value hoption
      obtain rfl := isPrefixOf?_eq_some_iff_append_eq.1 hoption
      obtain ⟨c, rfl, hfree, rfl⟩ := readPad_eq_ok.1 h
      have hc : c ∈ "pad=".toList ++ [c] := mem_append_right _ mem_cons_self
      exact ⟨.pad c, ⟨fun heq => hcomma (heq ▸ hc), hbrace c hc⟩, rfl, hfree, rfl⟩
    split at h
    · rename_i hoption
      obtain ⟨_, hfree, h⟩ := bind_eq_ok.1 h
      have hfree : st.hex = false := by simpa using ensure_eq_ok.1 hfree
      exact ⟨.hex, trivial, hoption.symm, hfree, pure_eq_ok.1 h⟩
    · cases h
  · rintro ⟨o, hvalid, rfl, hfree, rfl⟩
    cases o with
    | reset key | per key => exact readScope_eq_ok.2 ⟨hfree, key, hvalid, rfl, rfl⟩
    | width digits => exact readWidth_eq_ok.2 ⟨hfree, hvalid, rfl⟩
    | zero digits =>
      obtain ⟨c, digits, rfl⟩ := exists_cons_of_ne_nil hvalid.nonempty
      exact readWidth_eq_ok.2 ⟨hfree, hvalid, rfl⟩
    | pad c => exact readPad_eq_ok.2 ⟨c, rfl, hfree, rfl⟩
    | hex =>
      have hfree : st.hex = false := hfree
      exact bind_eq_ok.2 ⟨⟨⟩, ensure_eq_ok.2 (by rw [hfree]; rfl), rfl⟩

lemma free_apply {o : OptionText} {kind : OptionKind} :
    (o.apply st).Free kind ↔ st.Free kind ∧ kind ≠ o.kind := by
  cases o <;> cases kind <;> simp [OptionText.apply, CounterOptions.Free, OptionText.kind]

/-- The options are read exactly if they are about different new things. -/
theorem foldlM_read_eq_ok {name : String} {options : List (List Char)}
    (hcomma : ∀ option ∈ options, ',' ∉ option)
    (hbrace : ∀ option ∈ options, ∀ c ∈ option, isBrace c = false) :
    options.foldlM (CounterOptions.read name) st = .ok st' ↔
      ∃ os : List OptionText, (∀ o ∈ os, o.Valid) ∧ os.map OptionText.spell = options ∧
        (os.map OptionText.kind).Nodup ∧ (∀ o ∈ os, st.Free o.kind) ∧
          os.foldl OptionText.apply st = st' := by
  induction options generalizing st with
  | nil =>
    rw [foldlM_nil, pure_eq_ok]
    constructor
    · rintro rfl
      exact ⟨[], by simp⟩
    · rintro ⟨os, -, hspell, -, -, rfl⟩
      obtain rfl := map_eq_nil_iff.1 hspell
      rfl
  | cons option options ih =>
    obtain ⟨hcomma, hcommas⟩ := forall_mem_cons.1 hcomma
    obtain ⟨hbrace, hbraces⟩ := forall_mem_cons.1 hbrace
    rw [foldlM_cons, bind_eq_ok]
    simp only [read_eq_ok hcomma hbrace, ih hcommas hbraces]
    constructor
    · rintro ⟨_, ⟨o, hvalid, rfl, hfree, rfl⟩, os, hvalids, rfl, hnodup, hfrees, rfl⟩
      have hfrees := fun o' ho' => free_apply.1 (hfrees o' ho')
      refine ⟨o :: os, forall_mem_cons.2 ⟨hvalid, hvalids⟩, rfl, ?_,
        forall_mem_cons.2 ⟨hfree, fun o' ho' => (hfrees o' ho').1⟩, rfl⟩
      refine nodup_cons.2 ⟨fun hmem => ?_, hnodup⟩
      obtain ⟨o', ho', hkind⟩ := mem_map.1 hmem
      exact (hfrees o' ho').2 hkind
    · rintro ⟨os, hvalids, hspell, hnodup, hfrees, rfl⟩
      cases os with
      | nil => cases hspell
      | cons o os =>
        obtain ⟨rfl, rfl⟩ := List.cons.inj hspell
        obtain ⟨hvalid, hvalids⟩ := forall_mem_cons.1 hvalids
        obtain ⟨hfree, hfrees⟩ := forall_mem_cons.1 hfrees
        obtain ⟨hfresh, hnodup⟩ := nodup_cons.1 hnodup
        refine ⟨_, ⟨o, hvalid, rfl, hfree, rfl⟩, os, hvalids, rfl, hnodup, fun o' ho' => ?_, rfl⟩
        exact free_apply.2 ⟨hfrees o' ho', fun hkind =>
          hfresh (mem_map.2 ⟨o', ho', hkind⟩)⟩

end Options

/-! ## Tokens -/

def Plain (text : List Char) : Prop := ∀ c ∈ text, c ≠ ',' ∧ isBrace c = false

lemma plain_append {text' : List Char} : Plain (text ++ text') ↔ Plain text ∧ Plain text' := by
  simp only [Plain, mem_append, or_imp, forall_and]
  exact ⟨fun h => ⟨⟨h.1.1, h.2.1⟩, h.1.2, h.2.2⟩, fun h => ⟨⟨h.1.1, h.2.1⟩, h.1.2, h.2.2⟩⟩

lemma plain_of_chars (h : ∀ c ∈ text, c.isLower = true ∨ c.isDigit = true ∨ c = '_') :
    Plain text := by
  intro c hc
  have hbrace : ∀ d : Char, (d.isLower = false ∧ d.isDigit = false ∧ d ≠ '_') → c ≠ d := by
    rintro d hd rfl
    simpa [hd] using h c hc
  refine ⟨hbrace ',' (by decide), ?_⟩
  simp only [isBrace, Bool.or_eq_false_iff, decide_eq_false_iff_not]
  exact ⟨hbrace _ (by decide), hbrace _ (by decide)⟩

lemma DateFormat.plain (format : DateFormat) : Plain format.asStr.toList := by
  cases format with
  | _ => unfold Plain; decide

lemma KeyText.plain {key : KeyText} (h : key.Valid) : Plain key.spell := by
  cases key with
  | date format => exact plain_append.2 ⟨by unfold Plain; decide, format.plain⟩
  | named name => exact plain_of_chars h.chars

lemma IsWidth.plain (h : IsWidth digits) : Plain digits :=
  plain_of_chars fun c hc => .inr (.inl (h.numeric c hc))

lemma OptionText.plain {o : OptionText} (h : o.Valid) : Plain o.spell := by
  cases o with
  | reset key | per key => exact plain_append.2 ⟨by unfold Plain; decide, key.plain h⟩
  | width digits => exact plain_append.2 ⟨by unfold Plain; decide, IsWidth.plain h⟩
  | zero digits => exact forall_mem_cons.2 ⟨by decide, IsWidth.plain h⟩
  | pad c =>
    refine plain_append.2 ⟨by unfold Plain; decide, fun d hd => ?_⟩
    rw [mem_singleton.1 hd]
    exact h
  | hex => unfold Plain; decide

lemma comma_notMem_pieces {options : List OptionText} (h : (Item.seq name options).Valid) :
    ∀ piece ∈ name.toList :: options.map OptionText.spell, ',' ∉ piece := by
  refine forall_mem_cons.2 ⟨fun hc => ((plain_of_chars h.1.chars) _ hc).1 rfl, ?_⟩
  intro piece hpiece hc
  obtain ⟨o, ho, rfl⟩ := mem_map.1 hpiece
  exact (OptionText.plain (h.2 o ho) _ hc).1 rfl

lemma counter_eq_ok {body : List Char} (hbrace : ∀ c ∈ body, isBrace c = false) :
    counter body = .ok scanned ↔ ∃ name options, (Item.seq name options).Valid ∧
      (options.map OptionText.kind).Nodup ∧ (Item.seq name options).payload = body ∧
      (Item.seq name options).scanned = scanned := by
  -- The pieces between commas are made of characters of the body.
  have hpieces : [','].intercalate (body.splitOn ',') = body := intercalate_splitOn ','
  obtain ⟨first, rest, hcons⟩ := exists_cons_of_ne_nil (splitOn_ne_nil ',' body)
  have hcomma : ∀ piece ∈ rest, ',' ∉ piece := fun piece hpiece =>
    notMem_of_mem_splitOn (hcons ▸ mem_cons_of_mem _ hpiece)
  have hbraces : ∀ piece ∈ rest, ∀ c ∈ piece, isBrace c = false := by
    intro piece hpiece c hc
    refine hbrace c ?_
    rw [← hpieces, hcons, intercalate_cons]
    exact mem_append_right _
      (mem_flatMap.2 ⟨piece, hpiece, mem_append_right _ hc⟩)
  unfold counter
  simp only [bind_eq_ok, pure_eq_ok, hcons, headD_cons, tail_cons, identifier_eq_ok,
    foldlM_read_eq_ok hcomma hbraces]
  constructor
  · rintro ⟨name, ⟨rfl, hname⟩, _, ⟨options, hvalid, rfl, hnodup, -, rfl⟩, rfl⟩
    refine ⟨name, options, ⟨hname, hvalid⟩, hnodup, ?_, rfl⟩
    rw [Item.payload, ← hcons, hpieces]
  · rintro ⟨name, options, hvalid, hnodup, hpayload, rfl⟩
    have hsplit : body.splitOn ',' = name.toList :: options.map OptionText.spell := by
      rw [← hpayload]
      exact splitOn_intercalate ',' (comma_notMem_pieces hvalid) (cons_ne_nil _ _)
    obtain ⟨rfl, rfl⟩ := List.cons.inj (hcons.symm.trans hsplit)
    refine ⟨name, ⟨rfl, hvalid.1⟩, _, ⟨options, hvalid.2, rfl, hnodup, fun o _ => ?_, rfl⟩, rfl⟩
    cases o.kind <;> rfl

lemma token_eq_ok {body : List Char} (hbrace : ∀ c ∈ body, isBrace c = false) :
    token body = .ok scanned ↔ ∃ item : Item, item.Valid ∧ item.Once OptionText.kind ∧
      item.isLiteral = false ∧ item.kind.toList ++ ':' :: item.payload = body ∧
      item.scanned = scanned := by
  unfold token
  split
  · rename_i hcolon
    rw [splitOnce_eq_none] at hcolon
    constructor
    · exact nofun
    · rintro ⟨item, -, -, -, rfl, -⟩
      exact absurd (mem_append_right _ mem_cons_self) hcolon
  · rename_i kind rest hsplit
    obtain ⟨rfl, hkind⟩ := splitOnce_eq_some.1 hsplit
    have hrest : ∀ c ∈ rest, isBrace c = false := fun c hc =>
      hbrace c (mem_append_right _ (mem_cons_of_mem _ hc))
    -- The word before the first colon and the text after it are determined.
    have hparts : ∀ item : Item, item.kind.toList ++ ':' :: item.payload = kind ++ ':' :: rest →
        item.kind.toList = kind ∧ item.payload = rest := by
      intro item h
      refine append_cons_inj_of_notMem ?_ hkind h
      cases item with
      | _ => simp [Item.kind]
    constructor
    · intro h
      split at h
      · rename_i hfield
        obtain ⟨name, hname, hpart⟩ := bind_eq_ok.1 h
        obtain ⟨rfl, hvalid⟩ := identifier_eq_ok.1 hname
        exact ⟨.field name, hvalid, trivial, rfl, by rw [hfield]; rfl, pure_eq_ok.1 hpart⟩
      split at h
      · rename_i hdate
        obtain ⟨format, hformat, hpart⟩ := bind_eq_ok.1 h
        obtain rfl := dateFormat_eq_ok.1 hformat
        exact ⟨.date format, trivial, trivial, rfl, by rw [hdate]; rfl, pure_eq_ok.1 hpart⟩
      split at h
      · rename_i hseq
        obtain ⟨name, options, hvalid, honce, rfl, hscanned⟩ := (counter_eq_ok hrest).1 h
        exact ⟨.seq name options, hvalid, honce, rfl, by rw [hseq]; rfl, hscanned⟩
      · cases h
    · rintro ⟨item, hvalid, honce, htoken, hbody, rfl⟩
      obtain ⟨rfl, rfl⟩ := hparts item hbody
      cases item with
      | literal text => cases htoken
      | field name =>
        rw [Item.kind, if_pos rfl]
        exact bind_eq_ok.2 ⟨name, identifier_eq_ok.2 ⟨rfl, hvalid⟩, rfl⟩
      | date format =>
        rw [Item.kind, if_neg (by decide), if_pos rfl]
        exact bind_eq_ok.2 ⟨format, dateFormat_eq_ok.2 rfl, rfl⟩
      | seq name options =>
        rw [Item.kind, if_neg (by decide), if_neg (by decide), if_pos rfl]
        exact (counter_eq_ok hrest).2 ⟨name, options, hvalid, honce, rfl, rfl⟩

/-! ## Texts -/

lemma Item.body_plain (h : item.Valid) (htoken : item.isLiteral = false) :
    ∀ c ∈ item.kind.toList ++ ':' :: item.payload, isBrace c = false := by
  have hkind : ∀ c ∈ item.kind.toList ++ [':'], isBrace c = false := by
    cases item with
    | _ => simp [Item.kind]; decide
  have hpayload : ∀ c ∈ item.payload, isBrace c = false := by
    cases item with
    | literal text => cases htoken
    | field name => exact fun c hc => (plain_of_chars h.chars c hc).2
    | date format => exact fun c hc => (format.plain c hc).2
    | seq name options =>
      intro c hc
      rw [Item.payload, intercalate_cons] at hc
      rcases mem_append.1 hc with hc | hc
      · exact (plain_of_chars h.1.chars c hc).2
      · obtain ⟨piece, hpiece, hc⟩ := mem_flatMap.1 hc
        obtain ⟨o, ho, rfl⟩ := mem_map.1 hpiece
        rcases mem_cons.1 hc with rfl | hc
        · rfl
        · exact (OptionText.plain (h.2 o ho) c hc).2
  intro c hc
  rw [append_cons] at hc
  exact (mem_append.1 hc).elim (hkind c) (hpayload c)

lemma Item.spell_token (h : item.isLiteral = false) :
    item.spell = '\x7b' :: (item.kind.toList ++ ':' :: item.payload) ++ ['\x7d'] := by
  cases item with
  | literal text => cases h
  | _ => rfl

lemma Item.exists_cons (h : item.Valid) : ∃ c text, item.spell = c :: text ∧
      (item.isLiteral = false ∧ c = '\x7b' ∨ (∃ text, item = .literal text) ∧
        isBrace c = false) := by
  cases item with
  | literal text =>
    obtain ⟨c, text', htext⟩ := exists_cons_of_ne_nil h.1
    exact ⟨c, text', htext, .inr ⟨⟨text, rfl⟩, h.2 c (htext ▸ mem_cons_self)⟩⟩
  | _ => exact ⟨_, _, rfl, .inl ⟨rfl, rfl⟩⟩

/-- Items that spell a text, as the scanner takes them. -/
structure Spelling (items : List Item) (text : List Char) : Prop where
  valid : ∀ item ∈ items, item.Valid
  once : ∀ item ∈ items, item.Once OptionText.kind
  alternating : Alternating items
  spell : items.flatMap Item.spell = text

section Spelling

variable {items : List Item} {c : Char} {rest : List Char}

lemma spelling_cons_iff {text : List Char} : Spelling (item :: items) text ↔ item.Valid ∧
    item.Once OptionText.kind ∧
    (∀ next ∈ items.head?, item.isLiteral = false ∨ next.isLiteral = false) ∧
    ∃ later, Spelling items later ∧ item.spell ++ later = text := by
  constructor
  · rintro ⟨hvalid, honce, hchain, hspell⟩
    obtain ⟨hvalid, hvalids⟩ := forall_mem_cons.1 hvalid
    obtain ⟨honce, honces⟩ := forall_mem_cons.1 honce
    obtain ⟨hnext, hchain⟩ := isChain_cons.1 hchain
    exact ⟨hvalid, honce, hnext, _, ⟨hvalids, honces, hchain, rfl⟩, hspell⟩
  · rintro ⟨hvalid, honce, hnext, later, h, rfl⟩
    exact ⟨forall_mem_cons.2 ⟨hvalid, h.valid⟩, forall_mem_cons.2 ⟨honce, h.once⟩,
      isChain_cons.2 ⟨hnext, h.alternating⟩, by rw [flatMap_cons, h.spell]⟩

lemma spelling_nil_iff : Spelling items [] ↔ items = [] := by
  constructor
  · intro h
    cases items with
    | nil => rfl
    | cons item later =>
      obtain ⟨hvalid, -, -, _, -, hspell⟩ := spelling_cons_iff.1 h
      obtain ⟨c, text, hcons, -⟩ := Item.exists_cons hvalid
      rw [hcons] at hspell
      cases hspell
  · rintro rfl
    exact ⟨nofun, nofun, .nil, rfl⟩

/-- The first item of a text is a token or literal text, as its first character tells. -/
theorem Spelling.exists_item (h : Spelling items (c :: rest)) :
    ∃ item later, items = item :: later ∧
    (item.isLiteral = false ∧ c = '\x7b' ∨ (∃ text, item = .literal text) ∧ isBrace c = false) := by
  cases items with
  | nil => cases h.spell
  | cons item later =>
    obtain ⟨hvalid, -, -, _, -, hspell⟩ := spelling_cons_iff.1 h
    obtain ⟨c', text, hcons, hstart⟩ := Item.exists_cons hvalid
    rw [hcons] at hspell
    obtain ⟨rfl, -⟩ := List.cons.inj hspell
    exact ⟨item, later, rfl, hstart⟩

/-- A text that starts with an opening brace is spelled by a token first, up to the next closing
brace. -/
theorem spelling_token_iff : Spelling items ('\x7b' :: rest) ↔ ∃ item later text,
    items = item :: later ∧ (item.Valid ∧ item.Once OptionText.kind ∧ item.isLiteral = false) ∧
      splitOnce '\x7d' rest = some (item.kind.toList ++ ':' :: item.payload, text) ∧
      Spelling later text := by
  constructor
  · intro h
    obtain ⟨item, later, rfl, ⟨htoken, -⟩ | ⟨-, hbrace⟩⟩ := h.exists_item
    · obtain ⟨hvalid, honce, -, text, hlater, hspell⟩ := spelling_cons_iff.1 h
      refine ⟨item, later, text, rfl, ⟨hvalid, honce, htoken⟩, ?_, hlater⟩
      refine splitOnce_eq_some.2 ⟨?_, fun hmem => ?_⟩
      · rw [Item.spell_token htoken] at hspell
        simpa using (List.cons.inj hspell).2.symm
      · cases Item.body_plain hvalid htoken _ hmem
    · cases hbrace
  · rintro ⟨item, later, text, rfl, ⟨hvalid, honce, htoken⟩, hsplit, hlater⟩
    obtain ⟨rfl, -⟩ := splitOnce_eq_some.1 hsplit
    refine spelling_cons_iff.2 ⟨hvalid, honce, fun _ _ => .inl htoken, text, hlater, ?_⟩
    rw [Item.spell_token htoken]
    simp

/-- A text that starts with another character is spelled by literal text first, up to the next
brace. -/
theorem spelling_literal_iff (hc : isBrace c = false) : Spelling items (c :: rest) ↔ ∃ later,
    items = .literal (String.ofList (c :: rest.takeWhile fun c => !isBrace c)) :: later ∧
      Spelling later (rest.dropWhile fun c => !isBrace c) := by
  constructor
  · intro h
    obtain ⟨item, later, rfl, ⟨-, rfl⟩ | ⟨⟨text, rfl⟩, -⟩⟩ := h.exists_item
    · cases hc
    obtain ⟨hvalid, -, hnext, text', hlater, hspell⟩ := spelling_cons_iff.1 h
    have hplain : ∀ d ∈ text.toList, (!isBrace d) = true := fun d hd => by
      rw [hvalid.2 d hd]
      rfl
    have hhead : ∀ d ∈ text'.head?, (!isBrace d) = false := by
      intro d hd
      obtain ⟨rest', rfl⟩ := head?_eq_some_iff.1 hd
      obtain ⟨item, _, rfl, ⟨-, rfl⟩ | ⟨⟨_, rfl⟩, -⟩⟩ := hlater.exists_item
      · rfl
      · rcases hnext _ rfl with hfalse | hfalse
        · cases hfalse
        · cases hfalse
    have htake := takeWhile_run hplain hhead
    have hdrop := dropWhile_run hplain hhead
    rw [show text.toList ++ text' = c :: rest from hspell] at htake hdrop
    rw [takeWhile_cons_of_pos (by rw [hc]; rfl)] at htake
    rw [dropWhile_cons_of_pos (by rw [hc]; rfl)] at hdrop
    refine ⟨later, ?_, hdrop ▸ hlater⟩
    rw [htake, String.ofList_toList]
  · rintro ⟨later, rfl, hlater⟩
    refine spelling_cons_iff.2 ⟨⟨by simp, ?_⟩, trivial, fun next hnext => .inr ?_, _, hlater, ?_⟩
    · rw [String.toList_ofList]
      refine forall_mem_cons.2 ⟨hc, fun d hd => ?_⟩
      simpa using mem_takeWhile_imp hd
    · obtain ⟨_, rfl⟩ := head?_eq_some_iff.1 hnext
      cases htext : rest.dropWhile fun c => !isBrace c with
      | nil =>
        rw [htext] at hlater
        cases spelling_nil_iff.1 hlater
      | cons d _ =>
        have hbrace := head_dropWhile_not (fun c => !isBrace c) (l := rest) (by simp [htext])
        simp only [htext, head_cons, Bool.not_eq_false'] at hbrace
        rw [htext] at hlater
        obtain ⟨_, _, heq, ⟨htoken, -⟩ | ⟨-, hplain⟩⟩ := hlater.exists_item
        · obtain ⟨rfl, -⟩ := List.cons.inj heq
          exact htoken
        · cases hbrace.symm.trans hplain
    · rw [Item.spell, String.toList_ofList, cons_append, takeWhile_append_dropWhile]

end Spelling

/-- The text is scanned exactly if it is spelled by items, and then into them. -/
theorem scan_eq_ok {pattern : String} {rest : List Char} {scanned : List (Part × Option String)} :
    scan pattern rest = .ok scanned ↔
      ∃ items : List Item, Spelling items rest ∧ items.map Item.scanned = scanned := by
  fun_induction scan pattern rest generalizing scanned with
  | case1 => simp [spelling_nil_iff, pure_eq_ok]
  | case2 later =>
    refine ⟨nofun, ?_⟩
    rintro ⟨items, h, -⟩
    obtain ⟨_, _, -, ⟨-, hc⟩ | ⟨-, hc⟩⟩ := h.exists_item
    · cases hc
    · cases hc
  | case3 rest hclose =>
    refine ⟨nofun, ?_⟩
    rintro ⟨items, h, -⟩
    obtain ⟨_, _, _, -, -, hsplit, -⟩ := spelling_token_iff.1 h
    rw [hclose] at hsplit
    cases hsplit
  | case4 rest body later hclose hnested =>
    refine ⟨nofun, ?_⟩
    rintro ⟨items, h, -⟩
    obtain ⟨item, _, _, -, ⟨hvalid, -, htoken⟩, hsplit, -⟩ := spelling_token_iff.1 h
    obtain ⟨rfl, -⟩ := Prod.mk.inj (Option.mem_unique hclose hsplit)
    cases Item.body_plain hvalid htoken _ hnested
  | case5 rest body later hclose hnested ih =>
    obtain ⟨-, hend⟩ := splitOnce_eq_some.1 hclose
    have hbrace : ∀ c ∈ body, isBrace c = false := by
      intro c hc
      simp only [isBrace, Bool.or_eq_false_iff, decide_eq_false_iff_not]
      exact ⟨fun h => hnested (h ▸ hc), fun h => hend (h ▸ hc)⟩
    simp only [bind_eq_ok, pure_eq_ok, token_eq_ok hbrace, ih, spelling_token_iff, hclose]
    constructor
    · rintro ⟨_, ⟨item, hvalid, honce, htoken, rfl, rfl⟩, _, ⟨items, hitems, rfl⟩, rfl⟩
      exact ⟨item :: items, ⟨item, items, later, rfl, ⟨hvalid, honce, htoken⟩, rfl, hitems⟩, rfl⟩
    · rintro ⟨_, ⟨item, items, text, rfl, ⟨hvalid, honce, htoken⟩, hsplit, hitems⟩, rfl⟩
      obtain ⟨rfl, rfl⟩ := Prod.mk.inj (Option.some.inj hsplit)
      exact ⟨_, ⟨item, hvalid, honce, htoken, rfl, rfl⟩, _, ⟨items, hitems, rfl⟩, rfl⟩
  | case6 c rest hstray hopen run =>
    rename_i ih
    have hc : isBrace c = false := by
      simp only [isBrace, Bool.or_eq_false_iff, decide_eq_false_iff_not]
      exact ⟨hopen, hstray⟩
    simp only [bind_eq_ok, pure_eq_ok, ih, spelling_literal_iff hc]
    constructor
    · rintro ⟨_, ⟨items, hitems, rfl⟩, rfl⟩
      exact ⟨_, ⟨items, rfl, hitems⟩, rfl⟩
    · rintro ⟨_, ⟨items, rfl, hitems⟩, rfl⟩
      exact ⟨_, ⟨items, hitems, rfl⟩, rfl⟩

end Wamn.Numbering
