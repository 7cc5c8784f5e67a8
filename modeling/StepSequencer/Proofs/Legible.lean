import StepSequencer.Proofs.NormalForm

/-! Reading the counts of a text. It fails at a count of too many digits, and only there. -/

namespace StepSequencer

/-- None of some numerals is too long to be read. -/
def Legible (numerals : List Char → Prop) : Prop :=
  ∀ digits, numerals digits → digits.length ≤ maxDigits

/-- What comes of an attempt that has some numerals to read: a value if all of them can be read, or
else the complaint of one that cannot. -/
inductive Reads {ε α : Type} (fail : NumeralError → ε) (numerals : List Char → Prop) (value : α) :
    Except ε α → Prop
  | ok (legible : Legible numerals) : Reads fail numerals value (.ok value)
  | error {digits : List Char} (found : numerals digits) (long : maxDigits < digits.length) :
    Reads fail numerals value (.error (fail (.unreadable digits.length)))

namespace Reads

variable {ε α β : Type} {fail : NumeralError → ε} {numerals more : List Char → Prop} {value : α}
  {result : β} {attempt : Except ε α}

theorem eq_ok (h : Reads fail numerals value attempt) (hl : Legible numerals) :
    attempt = .ok value := by
  cases h with
  | ok => rfl
  | error found long => exact absurd (hl _ found) (Nat.not_le.mpr long)

theorem legible (h : Reads fail numerals value attempt) {other : α} (ho : attempt = .ok other) :
    Legible numerals := by
  cases h with
  | ok legible => exact legible
  | error => cases ho

theorem eq_ok_iff (h : Reads fail numerals value attempt) {other : α} :
    attempt = .ok other ↔ Legible numerals ∧ value = other := by
  constructor
  · intro ho
    have hl := h.legible ho
    exact ⟨hl, Except.ok.inj ((h.eq_ok hl).symm.trans ho)⟩
  · rintro ⟨hl, rfl⟩
    exact h.eq_ok hl

theorem eq_error (h : Reads fail numerals value attempt) (hl : ¬ Legible numerals) :
    ∃ digits, numerals digits ∧ maxDigits < digits.length ∧
      attempt = .error (fail (.unreadable digits.length)) := by
  cases h with
  | ok legible => exact absurd legible hl
  | error found long => exact ⟨_, found, long, rfl⟩

theorem congr (h : Reads fail numerals value attempt)
    (hd : ∀ digits, more digits ↔ numerals digits) : Reads fail more value attempt := by
  obtain rfl : more = numerals := funext fun digits => propext (hd digits)
  exact h

theorem of_eq_ok (ha : attempt = .ok value) (hn : ∀ digits, ¬ numerals digits) :
    Reads fail numerals value attempt := ha ▸ .ok fun digits hd => absurd hd (hn digits)

theorem bind {next : α → Except ε β} (h : Reads fail numerals value attempt)
    (hn : Reads fail more result (next value)) :
    Reads fail (fun digits => numerals digits ∨ more digits) result (attempt >>= next) := by
  cases h with
  | error found long => exact .error (.inl found) long
  | ok legible =>
    change Reads fail _ result (next value)
    generalize next value = after at hn
    cases hn with
    | ok also => exact .ok fun digits hd => hd.elim (legible digits) (also digits)
    | error found long => exact .error (.inr found) long

/-- What is done with the value reads no numeral and does not fail. -/
theorem bind_ok {next : α → Except ε β} (h : Reads fail numerals value attempt)
    (hn : next value = .ok result) : Reads fail numerals result (attempt >>= next) := by
  cases h with
  | error found long => exact .error found long
  | ok legible =>
    change Reads fail _ result (next value)
    exact hn ▸ .ok legible

theorem map (h : Reads fail numerals value attempt) (f : α → β) :
    Reads fail numerals (f value) (attempt >>= fun value => Except.ok (f value)) := h.bind_ok rfl

theorem mapError {attempt : Except NumeralError α} (h : Reads id numerals value attempt)
    (fail : NumeralError → ε) : Reads fail numerals value (attempt.mapError fail) := by
  cases h with
  | ok legible => exact .ok legible
  | error found long => exact .error found long

section Lists

variable {γ : Type} {items : List γ} {numerals : γ → List Char → Prop}

theorem mapM {read : γ → α} {tryRead : γ → Except ε α}
    (h : ∀ item ∈ items, Reads fail (numerals item) (read item) (tryRead item)) :
    Reads fail (fun digits => ∃ item ∈ items, numerals item digits) (items.map read)
      (items.mapM tryRead) := by
  induction items with
  | nil => exact .of_eq_ok rfl (by simp)
  | cons item rest ih =>
    obtain ⟨hi, hr⟩ := List.forall_mem_cons.mp h
    rw [List.mapM_cons]
    exact (hi.bind ((ih hr).map (read item :: ·))).congr (by simp)

/-- A run in which each step is an attempt on what the steps before it have kept. -/
theorem foldlM {state : β} {step : β → γ → β} {tryStep : β → γ → Except ε β} (Keeps : β → Prop)
    (hs : Keeps state) (h : ∀ state, Keeps state → ∀ item ∈ items,
      Reads fail (numerals item) (step state item) (tryStep state item) ∧
        Keeps (step state item)) :
    Reads fail (fun digits => ∃ item ∈ items, numerals item digits) (items.foldl step state)
      (items.foldlM tryStep state) := by
  induction items generalizing state with
  | nil => exact .of_eq_ok rfl (by simp)
  | cons item rest ih =>
    obtain ⟨hi, hk⟩ := h state hs item List.mem_cons_self
    have hr := ih hk fun state hs other ho => h state hs other (List.mem_cons_of_mem _ ho)
    rw [List.foldlM_cons]
    exact (hi.bind hr).congr (by simp)

end Lists

end Reads

theorem reads_readNumeral (digits : List Char) :
    Reads id (· = digits) (numberOfDigits digits) (readNumeral digits) := by
  rw [readNumeral]
  split
  next hl => exact .error rfl hl
  next hl => exact .ok fun _ he => he ▸ Nat.le_of_not_lt hl

/-- The digits of a count that a text has, at its end or in one of the parts that are left to be
read. -/
inductive WritesCount : List Char → List Char → Prop
  | last {text base digits : List Char} (h : formOf text = .repeated base digits) :
    WritesCount text digits
  | part {text part digits : List Char} (hp : part ∈ (formOf text).parts)
    (h : WritesCount part digits) : WritesCount text digits

theorem writesCount_iff {text digits : List Char} :
    WritesCount text digits ↔ (∃ base, formOf text = .repeated base digits) ∨
      ∃ part ∈ (formOf text).parts, WritesCount part digits := by
  constructor
  · rintro (h | ⟨hp, h⟩)
    · exact .inl ⟨_, h⟩
    · exact .inr ⟨_, hp, h⟩
  · rintro (⟨base, h⟩ | ⟨part, hp, h⟩)
    · exact .last h
    · exact .part hp h

theorem WritesCount.length_lt {text digits : List Char} (h : WritesCount text digits) :
    digits.length < text.length := by
  induction h with
  | @last text base digits h =>
    have hm := matches_formOf text
    have ht := length_trim_le text
    rw [h] at hm
    cases hm with
    | repeated hb hd he =>
      rw [he, List.length_append, List.length_cons] at ht
      omega
  | part hp _ ih => exact ih.trans (length_lt_of_mem_parts hp)

/-- A text that is short enough has no count that is too long. -/
theorem legible_of_length_le {text : List Char} (h : text.length ≤ maxDigits) :
    Legible (WritesCount text) := fun _ hd => Nat.le_of_lt (hd.length_lt.trans_le h)

namespace Token

theorem reads_tryRead (text : List Char) :
    Reads id (WritesCount text) (Token.read text) (Token.tryRead text) := by
  induction hn : text.length using Nat.strong_induction_on generalizing text with
  | _ n ih =>
    subst hn
    have hi : ∀ part ∈ (formOf text).parts,
        Reads id (WritesCount part) (Token.read part) (Token.tryRead part) :=
      fun part hp => ih _ (length_lt_of_mem_parts hp) part rfl
    have hc := fun digits => @writesCount_iff text digits
    rw [Token.read_eq, Token.tryRead_eq]
    generalize formOf text = form at hi hc ⊢
    cases form with
    | rest => exact .of_eq_ok rfl (by simp [hc, Form.parts])
    | word word => exact .of_eq_ok rfl (by simp [hc, Form.parts])
    | repeated base digits =>
      have hb := hi base (List.mem_singleton_self _)
      have hd := (reads_readNumeral digits).map fun count => repeated (Token.read base) count
      exact (hb.bind hd).congr (by simp [hc, Form.parts, or_comm, eq_comm])
    | bracketed inner =>
      exact ((hi inner (List.mem_singleton_self _)).map bracketed).congr (by simp [hc, Form.parts])
    | alternation choices =>
      exact ((Reads.mapM hi).map alternation).congr (by simp [hc, Form.parts])
    | sequence elements =>
      exact ((Reads.mapM hi).map sequence).congr (by simp [hc, Form.parts])

variable {token : Token}

/-- A node of the tree is repeated so many times. -/
def Counts (token : Token) (count : Int) : Prop := ∃ base, .repeated base count ∈ token.nodes

@[simp]
theorem not_counts_rest (count : Int) : ¬ rest.Counts count := by simp [Counts, nodes]

@[simp]
theorem not_counts_atomic (text : String) (count : Int) : ¬ (atomic text).Counts count := by
  simp [Counts, nodes]

@[simp]
theorem counts_repeated {base : Token} {count number : Int} :
    (repeated base count).Counts number ↔ number = count ∨ base.Counts number := by
  simp [Counts, nodes, exists_or]

@[simp]
theorem counts_bracketed {inner : Token} {count : Int} :
    (bracketed inner).Counts count ↔ inner.Counts count := by
  simp [Counts, nodes]

theorem exists_mem_nodesAll {tokens : List Token} {count : Int} :
    (∃ base, .repeated base count ∈ nodesAll tokens) ↔ ∃ token ∈ tokens, token.Counts count := by
  simp only [nodesAll_eq, List.mem_flatMap]
  exact ⟨fun ⟨base, token, hm, hn⟩ => ⟨token, hm, base, hn⟩,
    fun ⟨token, hm, base, hn⟩ => ⟨base, token, hm, hn⟩⟩

@[simp]
theorem counts_alternation {choices : List Token} {count : Int} :
    (alternation choices).Counts count ↔ ∃ choice ∈ choices, choice.Counts count := by
  refine Iff.trans ?_ exists_mem_nodesAll
  simp [Counts, nodes]

@[simp]
theorem counts_sequence {elements : List Token} {count : Int} :
    (sequence elements).Counts count ↔ ∃ element ∈ elements, element.Counts count := by
  refine Iff.trans ?_ exists_mem_nodesAll
  simp [Counts, nodes]

/-- The digits of the counts of a tree. -/
def Numerals (token : Token) (digits : List Char) : Prop :=
  ∃ count, token.Counts count ∧ digits = (toString count).toList

theorem exists_mem_map_spell_iff {tokens : List Token} {digits : List Char}
    (h : ∀ token ∈ tokens, WritesCount token.spell digits ↔ token.Numerals digits) :
    (∃ part ∈ tokens.map spell, WritesCount part digits) ↔
      ∃ count, (∃ token ∈ tokens, token.Counts count) ∧ digits = (toString count).toList := by
  constructor
  · rintro ⟨_, hp, hc⟩
    obtain ⟨token, hm, rfl⟩ := List.mem_map.mp hp
    obtain ⟨count, hn, he⟩ := (h token hm).mp hc
    exact ⟨count, ⟨token, hm, hn⟩, he⟩
  · rintro ⟨count, ⟨token, hm, hn⟩, he⟩
    exact ⟨token.spell, List.mem_map_of_mem hm, (h token hm).mpr ⟨count, hn, he⟩⟩

/-- A well-formed tree has the counts that its text has. -/
theorem WellFormed.writesCount_spell_iff (h : token.WellFormed) {digits : List Char} :
    WritesCount token.spell digits ↔ token.Numerals digits := by
  have hf {token : Token} (h : token.WellFormed) : WritesCount token.spell digits ↔
      (∃ base, token.form = .repeated base digits) ∨
        ∃ part ∈ token.form.parts, WritesCount part digits := h.formOf_spell ▸ writesCount_iff
  induction h with
  | rest => simp [hf .rest, form, Form.parts, Numerals]
  | atomic h => simp [hf (.atomic h), form, Form.parts, Numerals]
  | bracketed h ih =>
    rw [hf (.bracketed h)]
    simp [form, Form.parts, Numerals, ih]
  | @repeated base count h hn ih =>
    rw [hf (.repeated h hn)]
    simp only [form, Form.parts, List.mem_singleton, exists_eq_left, ih, Numerals, counts_repeated,
      or_and_right, exists_or, Form.repeated.injEq, exists_eq_left', eq_comm]
  | alternation h he ih =>
    rw [hf (.alternation h he)]
    simp only [form, Form.parts, exists_mem_map_spell_iff ih, Numerals, counts_alternation,
      reduceCtorEq, exists_false, false_or]
  | sequence h he hn hl ih =>
    rw [hf (.sequence h he hn hl)]
    simp only [form, Form.parts, exists_mem_map_spell_iff ih, Numerals, counts_sequence,
      reduceCtorEq, exists_false, false_or]

theorem WellFormed.count_nonneg (h : token.WellFormed) {count : Int} (hc : token.Counts count) :
    0 ≤ count := by
  obtain ⟨base, hm⟩ := hc
  rw [← read_spell h] at hm
  exact (nodes_read token.spell).1 _ hm

theorem length_toString_le_iff {count : Int} (h : 0 ≤ count) :
    (toString count).toList.length ≤ maxDigits ↔ count < 10 ^ maxDigits := by
  obtain ⟨n, rfl⟩ := Int.eq_ofNat_of_zero_le h
  rw [toList_toString_of_nonneg h, Int.toNat_natCast,
    Nat.length_toDigits_le_iff (by decide) (by decide)]
  exact_mod_cast Iff.rfl

theorem WellFormed.legible_iff (h : token.WellFormed) :
    Legible (WritesCount token.spell) ↔ ∀ count, token.Counts count → count < 10 ^ maxDigits := by
  simp only [Legible, h.writesCount_spell_iff]
  constructor
  · intro hl count hc
    exact (length_toString_le_iff (h.count_nonneg hc)).mp (hl _ ⟨count, hc, rfl⟩)
  · rintro hl digits ⟨count, hc, rfl⟩
    exact (length_toString_le_iff (h.count_nonneg hc)).mpr (hl count hc)

/-- A well-formed tree comes back from its text just if none of its counts has more than 4300
digits. If one has, the reading complains of such a count. -/
theorem tryRead_spell (h : token.WellFormed) :
    (Token.tryRead token.spell = .ok token ↔
      ∀ count, token.Counts count → count < 10 ^ maxDigits) ∧
    ((∃ count, token.Counts count ∧ 10 ^ maxDigits ≤ count) →
      ∃ count, token.Counts count ∧ 10 ^ maxDigits ≤ count ∧
        Token.tryRead token.spell = .error (.unreadable (toString count).length)) := by
  have hr := reads_tryRead token.spell
  rw [read_spell h] at hr
  refine ⟨by rw [hr.eq_ok_iff, h.legible_iff, and_iff_left rfl], ?_⟩
  rintro ⟨large, hc, hl⟩
  obtain ⟨digits, hd, hlong, he⟩ := hr.eq_error fun hn =>
    absurd (h.legible_iff.mp hn large hc) (Int.not_lt.mpr hl)
  obtain ⟨count, hc, rfl⟩ := h.writesCount_spell_iff.mp hd
  refine ⟨count, hc, ?_, he⟩
  exact Int.not_lt.mp fun hn =>
    absurd ((length_toString_le_iff (h.count_nonneg hc)).mpr hn) (Nat.not_le.mpr hlong)

theorem tryRead_spell_nested :
    let word : Token := .atomic "a*"
    let choices : Token := .alternation [.repeated word 3, .rest]
    let token : Token := .repeated (.sequence [choices, .bracketed (.repeated word 0), word]) 12
    token.WellFormed ∧ token.spell = "<a**3 ~> [a**0] a**12".toList ∧
      Token.tryRead token.spell = .ok token := by
  intro word choices token
  have hp : PlainWord "a*".toList := ⟨by decide, by simp [isBlank], by simp [weight], by decide,
    not_endsInCount_concat ['a'] (by decide)⟩
  have hw : word.WellFormed := .atomic hp
  have hc : choices.WellFormed := .alternation
    (by simpa using ⟨.repeated hw (by decide), .rest⟩) (by simp [Element, word])
  have hs : (Token.sequence [choices, .bracketed (.repeated word 0), word]).WellFormed := .sequence
    (by simpa using ⟨hc, .bracketed (.repeated hw (by decide)), hw⟩)
    (by simp [Element, choices, word]) (by simp) (by simp [Counted, word])
  have ht : token.WellFormed := .repeated hs (by decide)
  have hn : ∀ count, token.Counts count → count = 12 ∨ count = 3 ∨ count = 0 := by
    simp [token, choices, word]
  have hl : (10 : Int) ^ 2 < 10 ^ maxDigits := Int.pow_lt_pow_of_lt (by decide) (by decide)
  refine ⟨ht, by decide, (tryRead_spell ht).1.mpr fun count hm => lt_trans ?_ hl⟩
  rcases hn count hm with rfl | rfl | rfl <;> decide

/-- The least count with too many digits. -/
@[irreducible]
def overlong : Token := .repeated (.atomic "bd") (10 ^ maxDigits)

theorem wellFormed_overlong : overlong.WellFormed := by
  have hp : PlainWord "bd".toList := ⟨by decide, by simp [isBlank], by simp [weight], by decide,
    not_endsInCount_concat ['b'] (by decide)⟩
  rw [overlong]
  exact .repeated (.atomic hp) (Int.pow_nonneg (by decide))

theorem counts_overlong : overlong.Counts (10 ^ maxDigits) := by simp [overlong]

theorem not_legible_overlong : ¬ Legible (WritesCount overlong.spell) := by
  rw [wellFormed_overlong.legible_iff]
  exact fun hl => lt_irrefl _ (hl _ counts_overlong)

/-- It is well-formed, but does not come back. -/
theorem not_tryRead_spell : overlong.WellFormed ∧ ∃ digits, maxDigits < digits ∧
    Token.tryRead overlong.spell = .error (.unreadable digits) := by
  obtain ⟨digits, -, hlong, he⟩ := (reads_tryRead overlong.spell).eq_error not_legible_overlong
  exact ⟨wellFormed_overlong, _, hlong, he⟩

end Token

end StepSequencer
