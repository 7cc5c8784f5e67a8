import StepSequencer.Proofs.Reading

/-! Well-formed trees come back from what they spell. -/

namespace StepSequencer

namespace Token

/-- A tree that can stand as one element: no sequence, and no count over a sequence. -/
def Element : Token → Prop
  | .sequence _ => False
  | .repeated base _ => base.Element
  | _ => True

def Counted : Token → Prop
  | .repeated _ _ => True
  | _ => False

inductive WellFormed : Token → Prop
  | rest : WellFormed .rest
  | atomic {text : String} (h : PlainWord text.toList) : WellFormed (.atomic text)
  | bracketed {inner : Token} (h : WellFormed inner) : WellFormed (.bracketed inner)
  | repeated {base : Token} {count : Int} (h : WellFormed base) (hc : 0 ≤ count) :
    WellFormed (.repeated base count)
  | alternation {choices : List Token} (h : ∀ choice ∈ choices, WellFormed choice)
    (he : ∀ choice ∈ choices, choice.Element) : WellFormed (.alternation choices)
  | sequence {elements : List Token} (h : ∀ element ∈ elements, WellFormed element)
    (he : ∀ element ∈ elements, element.Element) (hn : 2 ≤ elements.length)
    (hl : ∀ element ∈ elements.getLast?, ¬ element.Counted) : WellFormed (.sequence elements)

theorem spellAll_eq (tokens : List Token) :
    Token.spellAll tokens = [' '].intercalate (tokens.map Token.spell) := by
  induction tokens with
  | nil => rfl
  | cons first more ih =>
    cases more with
    | nil => simp [Token.spellAll]
    | cons second more =>
      rw [Token.spellAll, ih]
      simp only [List.map_cons, List.intercalate_cons_cons, List.append_assoc,
        List.singleton_append]

theorem balanced_spellAll {tokens : List Token} (h : ∀ token ∈ tokens, Balanced token.spell) :
    Balanced (Token.spellAll tokens) := by
  rw [spellAll_eq]
  exact balanced_intercalate (by decide) (by simp) (by simpa using h)

theorem trimmed_spellAll {tokens : List Token} (hn : tokens ≠ [])
    (h : ∀ token ∈ tokens, Trimmed token.spell) : Trimmed (Token.spellAll tokens) := by
  rw [spellAll_eq]
  exact trimmed_intercalate (by simpa using hn) (by simpa using h)

namespace WellFormed

theorem balanced_spell {token : Token} (h : token.WellFormed) : Balanced token.spell := by
  induction h with
  | rest => exact elementText_tilde.balanced
  | atomic h => exact h.elementText.balanced
  | bracketed _ ih => exact ih.enclose (by decide) (by decide)
  | repeated _ hc ih => exact ih.append_count hc
  | alternation _ _ ih => exact (balanced_spellAll ih).enclose (by decide) (by decide)
  | sequence _ _ _ _ ih => exact balanced_spellAll ih

theorem trimmed_spell {token : Token} (h : token.WellFormed) : Trimmed token.spell := by
  induction h with
  | rest => exact elementText_tilde.trimmed
  | atomic h => exact h.elementText.trimmed
  | bracketed => exact trimmed_enclose _ (by decide) (by decide)
  | repeated _ hc ih => exact ih.append_count hc
  | alternation => exact trimmed_enclose _ (by decide) (by decide)
  | sequence _ _ hn _ ih =>
    refine trimmed_spellAll ?_ ih
    rintro rfl
    simp at hn

theorem elementText_spell {token : Token} (h : token.WellFormed) (he : token.Element) :
    ElementText token.spell := by
  induction h with
  | rest => exact elementText_tilde
  | atomic h => exact h.elementText
  | bracketed h => exact h.balanced_spell.elementText_enclose (by decide) (by decide)
  | repeated _ hc ih => exact (ih he).append_count hc
  | alternation h =>
    exact (balanced_spellAll fun choice hm => (h choice hm).balanced_spell).elementText_enclose
      (by decide) (by decide)
  | sequence => exact he.elim

theorem not_endsInCount_spell {token : Token} (h : token.WellFormed) (he : token.Element)
    (hc : ¬ token.Counted) : ¬ EndsInCount token.spell := by
  cases h with
  | rest => exact not_endsInCount_concat [] (by decide)
  | atomic h => exact h.not_count
  | bracketed => exact not_endsInCount_concat _ (by decide)
  | repeated => exact absurd trivial hc
  | alternation => exact not_endsInCount_concat _ (by decide)
  | sequence => exact he.elim

theorem sequence_map {α : Type} {f : α → Token} {items : List α} (h : ∀ item, (f item).WellFormed)
    (he : ∀ item, (f item).Element ∧ ¬ (f item).Counted) (hn : 2 ≤ items.length) :
    (Token.sequence (items.map f)).WellFormed := by
  refine .sequence (List.forall_mem_map.mpr fun item _ => h item)
    (List.forall_mem_map.mpr fun item _ => (he item).1) (by rwa [List.length_map]) fun last hm => ?_
  obtain ⟨item, _, rfl⟩ := List.mem_map.mp (List.mem_of_mem_getLast? hm)
  exact (he item).2

theorem elementText_map {tokens : List Token} (h : ∀ token ∈ tokens, token.WellFormed)
    (he : ∀ token ∈ tokens, token.Element) :
    ∀ text ∈ tokens.map Token.spell, ElementText text := by
  intro text ht
  obtain ⟨token, hm, rfl⟩ := List.mem_map.mp ht
  exact (h token hm).elementText_spell (he token hm)

end WellFormed

/-- The form of what a tree spells. -/
def form : Token → Form
  | .rest => .rest
  | .atomic text => .word text.toList
  | .repeated base count => .repeated base.spell (toString count).toList
  | .bracketed inner => .bracketed inner.spell
  | .alternation choices => .alternation (choices.map spell)
  | .sequence elements => .sequence (elements.map spell)

theorem WellFormed.formOf_spell {token : Token} (h : token.WellFormed) :
    formOf token.spell = token.form := by
  cases h with
  | rest => exact formOf_of_isRest elementText_tilde.trimmed (by decide)
  | atomic h => exact formOf_word h
  | bracketed h => exact formOf_bracketed h.balanced_spell
  | repeated h hc => exact formOf_repeated h.trimmed_spell hc
  | alternation h he =>
    have hb := balanced_spellAll fun choice hm => (h choice hm).balanced_spell
    rw [Token.spell, formOf_alternation hb, spellAll_eq,
      elements_intercalate (WellFormed.elementText_map h he)]
    rfl
  | @sequence elements h he hn hl =>
    have hc : ∀ text ∈ (elements.map Token.spell).getLast?, ¬ EndsInCount text := by
      intro text ht
      rw [List.getLast?_map] at ht
      obtain ⟨last, hm, rfl⟩ := Option.map_eq_some_iff.mp ht
      have hmem := List.mem_of_mem_getLast? hm
      exact (h last hmem).not_endsInCount_spell (he last hmem) (hl last hm)
    rw [Token.spell, spellAll_eq, formOf_sequence (by simpa using hn)
      (WellFormed.elementText_map h he) hc]
    rfl

theorem map_read_spell {tokens : List Token}
    (h : ∀ token ∈ tokens, Token.read token.spell = token) :
    (tokens.map Token.spell).map Token.read = tokens := by
  rw [List.map_map]
  exact (List.map_congr_left h).trans (List.map_id tokens)

theorem read_spell_sequence {elements : List Token} (h : (Token.sequence elements).WellFormed)
    (hr : ∀ element ∈ elements, Token.read element.spell = element) :
    Token.read (Token.sequence elements).spell = .sequence elements := by
  rw [Token.read_eq, h.formOf_spell]
  exact congrArg _ (map_read_spell hr)

/-- Every well-formed tree is what its text writes. -/
theorem read_spell {token : Token} (h : token.WellFormed) : Token.read token.spell = token := by
  induction h with
  | rest => exact read_rest
  | atomic h => rw [Token.spell, read_word h, String.ofList_toList]
  | bracketed h ih => rw [Token.spell, read_bracketed h.balanced_spell, ih]
  | repeated h hc ih => rw [Token.spell, read_repeated h.trimmed_spell hc, ih]
  | alternation h he ih =>
    rw [Token.read_eq, (WellFormed.alternation h he).formOf_spell]
    exact congrArg _ (map_read_spell ih)
  | sequence h he hn hl ih => exact read_spell_sequence (.sequence h he hn hl) ih

end Token

end StepSequencer
