import StepSequencer.Proofs.Leaves
import StepSequencer.Proofs.NormalForm

/-! The name that is read off the text of a tree is the first sound of the tree. -/

namespace StepSequencer

namespace Token

def sound? : Token → Option String
  | .atomic text => some text
  | _ => none

/-- The sounds of a tree from left to right, also those of choices that are not played. -/
def sounds (token : Token) : List String := token.nodes.filterMap sound?

theorem filterMap_nodesAll (tokens : List Token) :
    (nodesAll tokens).filterMap sound? = tokens.flatMap sounds := by
  rw [nodesAll_eq, List.filterMap_flatMap]
  rfl

theorem filter_leavesAll {tokens : List Token}
    (h : ∀ token ∈ tokens, token.leaves.filter (!isRest ·) = token.sounds.map String.toList) :
    (leavesAll tokens).filter (!isRest ·) =
      ((nodesAll tokens).filterMap sound?).map String.toList := by
  rw [leavesAll_eq, List.filter_flatMap, filterMap_nodesAll, List.map_flatMap]
  exact List.flatMap_congr h

/-- Of the leaves, those that are not rests are the sounds. -/
theorem Sounding.filter_leaves {token : Token} (h : token.Sounding) :
    token.leaves.filter (!isRest ·) = token.sounds.map String.toList := by
  induction h with
  | rest => decide
  | atomic h => simp [leaves, sounds, nodes, sound?, h.not_rest]
  | repeated _ _ ih => exact ih
  | bracketed _ ih => exact ih
  | alternation _ ih => exact filter_leavesAll ih
  | sequence _ ih => exact filter_leavesAll ih

/-- The text of a tree is named for the first sound of the tree, wherever it stands in it. -/
theorem soundName_spell {token : Token} (h : token.Sounding) :
    soundName token.spell = token.sounds.head?.getD defaultSound := by
  rw [soundName_eq, h.soundWords_spell, ← List.head?_filter, h.filter_leaves, List.head?_map,
    Option.map_map]
  cases token.sounds.head? with
  | none => rfl
  | some sound => exact String.ofList_toList

theorem soundName_spell_second :
    let silent : Token := .repeated (.bracketed (.sequence [.rest, .alternation []])) 3
    let token : Token := .sequence [.alternation [silent, .repeated (.atomic "a*") 12], .atomic "b"]
    token.Sounding ∧ token.spell = "<[~ <>]*3 a**12> b".toList ∧ soundName token.spell = "a*" := by
  intro silent token
  have hs : silent.Sounding := .repeated (.bracketed (.sequence
    (by simpa using ⟨.rest, .alternation (by simp)⟩))) (by decide)
  have hc : (Token.alternation [silent, .repeated (.atomic "a*") 12]).Sounding :=
    .alternation (by simpa using ⟨hs, .repeated (.atomic (by decide)) (by decide)⟩)
  have ht : token.Sounding := .sequence (by simpa using ⟨hc, .atomic (by decide)⟩)
  exact ⟨ht, by decide, (soundName_spell ht).trans (by decide)⟩

end Token

end StepSequencer
