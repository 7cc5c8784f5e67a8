import StepSequencer.Proofs.SoundName
import StepSequencer.Proofs.Spelling

/-! The leaves of a tree: the words of its text, and where their commas stand. -/

namespace StepSequencer

namespace Token

mutual

def leaves : Token → List (List Char)
  | .rest => [['~']]
  | .atomic text => [text.toList]
  | .repeated base _ => base.leaves
  | .bracketed inner => inner.leaves
  | .alternation choices => leavesAll choices
  | .sequence elements => leavesAll elements

def leavesAll : List Token → List (List Char)
  | [] => []
  | first :: more => first.leaves ++ leavesAll more

end

theorem leavesAll_eq (tokens : List Token) : leavesAll tokens = tokens.flatMap leaves := by
  induction tokens with
  | nil => rfl
  | cons first more ih => rw [leavesAll, ih, List.flatMap_cons]

/-- Each word of the tree stands for a sound. -/
inductive Sounding : Token → Prop
  | rest : Sounding .rest
  | atomic {text : String} (h : SoundWord text.toList) : Sounding (.atomic text)
  | repeated {base : Token} {count : Int} (h : Sounding base) (hc : 0 ≤ count) :
    Sounding (.repeated base count)
  | bracketed {inner : Token} (h : Sounding inner) : Sounding (.bracketed inner)
  | alternation {choices : List Token} (h : ∀ choice ∈ choices, Sounding choice) :
    Sounding (.alternation choices)
  | sequence {elements : List Token} (h : ∀ element ∈ elements, Sounding element) :
    Sounding (.sequence elements)

theorem soundWords_spellAll {tokens : List Token}
    (h : ∀ token ∈ tokens, soundWords token.spell = token.leaves) :
    soundWords (Token.spellAll tokens) = leavesAll tokens := by
  rw [spellAll_eq, soundWords_intercalate, List.flatMap_map, leavesAll_eq]
  exact List.flatMap_congr h

theorem Sounding.soundWords_spell {token : Token} (h : token.Sounding) :
    soundWords token.spell = token.leaves := by
  induction h with
  | rest => exact soundWords_tilde
  | atomic h => exact h.soundWords_eq
  | repeated _ hc ih => exact (soundWords_append_count _ hc).trans ih
  | bracketed _ ih => exact (soundWords_enclose _ (by decide) (by decide)).trans ih
  | alternation _ ih =>
    exact (soundWords_enclose _ (by decide) (by decide)).trans (soundWords_spellAll ih)
  | sequence _ ih => exact soundWords_spellAll ih

/-- No word outside the brackets of the tree has a comma. -/
inductive Shielded : Token → Prop
  | rest : Shielded .rest
  | atomic {text : String} (h : ',' ∉ text.toList) : Shielded (.atomic text)
  | repeated {base : Token} {count : Int} (h : Shielded base) : Shielded (.repeated base count)
  | bracketed {inner : Token} : Shielded (.bracketed inner)
  | alternation {choices : List Token} : Shielded (.alternation choices)
  | sequence {elements : List Token} (h : ∀ element ∈ elements, Shielded element) :
    Shielded (.sequence elements)

theorem WellFormed.whole_spell {token : Token} (h : token.WellFormed) (hs : token.Shielded) :
    Whole (· == ',') token.spell := by
  induction h with
  | rest => exact stretches_of_forall (List.forall_mem_singleton.mpr (by decide)) 0
  | atomic =>
    cases hs with
    | atomic hn =>
      refine stretches_of_forall (fun c hc => beq_false_of_ne ?_) 0
      rintro rfl
      exact hn hc
  | bracketed h => exact h.balanced_spell.whole_enclose (by decide) (by decide) (by decide)
  | @repeated base count h hc ih =>
    cases hs with
    | repeated hb =>
      refine (ih hb).append h.balanced_spell.depth_eq (stretches_of_forall (fun c hm => ?_) 0)
      rcases List.mem_cons.mp hm with rfl | hm
      · decide
      · refine beq_false_of_ne ?_
        rintro rfl
        exact absurd (isDigit_of_mem_toString hc hm) (by decide)
  | alternation h =>
    exact (balanced_spellAll fun choice hm => (h choice hm).balanced_spell).whole_enclose
      (by decide) (by decide) (by decide)
  | sequence h _ _ _ ih =>
    cases hs with
    | sequence hm =>
      rw [Token.spell, spellAll_eq]
      refine whole_intercalate (List.forall_mem_singleton.mpr (by decide)) (by decide) ?_ ?_
      · exact List.forall_mem_map.mpr fun element he => ih element he (hm element he)
      · exact List.forall_mem_map.mpr fun element he => (h element he).balanced_spell.depth_eq

end Token

end StepSequencer
