import StepSequencer.Proofs.Spelling
import StepSequencer.Proofs.Splitting

/-! The trees that are read are in normal form, and no larger than their texts. -/

namespace StepSequencer

namespace Token

mutual

/-- The nodes of a tree, the tree itself before those below it. -/
def nodes : Token → List Token
  | .rest => [.rest]
  | .atomic text => [.atomic text]
  | .repeated base count => .repeated base count :: base.nodes
  | .bracketed inner => .bracketed inner :: inner.nodes
  | .alternation choices => .alternation choices :: nodesAll choices
  | .sequence elements => .sequence elements :: nodesAll elements

def nodesAll : List Token → List Token
  | [] => []
  | first :: more => first.nodes ++ nodesAll more

end

theorem nodesAll_eq (tokens : List Token) : nodesAll tokens = tokens.flatMap nodes := by
  induction tokens with
  | nil => rfl
  | cons first more ih => rw [nodesAll, ih, List.flatMap_cons]

/-- The root of the tree, and what stands right below it, is in normal form. -/
def NormalRoot : Token → Prop
  | .rest => True
  | .atomic text => Trimmed text.toList ∧ isRest text.toList = false
  | .repeated _ count => 0 ≤ count
  | .bracketed _ => True
  | .alternation choices => ∀ choice ∈ choices, choice.Element
  | .sequence elements => 2 ≤ elements.length ∧ (∀ last ∈ elements.getLast?, ¬ last.Counted) ∧
    ∀ element ∈ elements, element.Element

/-- One case for each rule of the reading, with the form that the trimmed text then has. -/
@[elab_as_elim]
theorem read_induction {motive : List Char → Token → Prop}
    (rest : ∀ text, motive text .rest)
    (repeated : ∀ text base digits (count : Nat), base ≠ [] → trim text = base ++ '*' :: digits →
      motive base (Token.read base) → motive text (.repeated (Token.read base) count))
    (bracketed : ∀ text inner, trim text = '[' :: inner ++ [']'] →
      motive inner (Token.read inner) → motive text (.bracketed (Token.read inner)))
    (alternation : ∀ text inner, trim text = '<' :: inner ++ ['>'] →
      (∀ choice ∈ elements inner, motive choice (Token.read choice)) →
      motive text (.alternation ((elements inner).map Token.read)))
    (sequence : ∀ text, repeatSuffix? (trim text) = none → 2 ≤ (elements (trim text)).length →
      (∀ element ∈ elements (trim text), motive element (Token.read element)) →
      motive text (.sequence ((elements (trim text)).map Token.read)))
    (atomic : ∀ text, Trimmed (trim text) → isRest (trim text) = false →
      motive text (.atomic (String.ofList (trim text))))
    (text : List Char) : motive text (Token.read text) := by
  induction hn : text.length using Nat.strong_induction_on generalizing text with
  | _ n ih =>
    subst hn
    have hi : ∀ part ∈ (formOf text).parts, motive part (Token.read part) :=
      fun part hp => ih _ (length_lt_of_mem_parts hp) part rfl
    have hm := matches_formOf text
    rw [Token.read_eq]
    generalize formOf text = form at hi hm ⊢
    cases hm with
    | rest => exact rest text
    | repeated hb _ he => exact repeated text _ _ _ hb he (hi _ (List.mem_singleton_self _))
    | bracketed he => exact bracketed text _ he (hi _ (List.mem_singleton_self _))
    | alternation he => exact alternation text _ he hi
    | sequence hc hn => exact sequence text hc hn hi
    | word ht hr => exact atomic text ht hr

section Elements

/-- What is not cut at its blanks is read as no sequence, nor is any base of its counts. -/
theorem element_read {text : List Char} (h : Whole isBlank text) : (Token.read text).Element := by
  have hs : ∀ c, isBlank c = true → weight c = 0 := fun _ => weight_of_isBlank
  induction text using read_induction with
  | repeated text base digits count _ he ih =>
    have hw := Whole.trim hs h
    rw [he] at hw
    exact ih (Whole.of_append hs [] hw depth_nil)
  | sequence text _ hn _ =>
    have hl : (elements (trim text)).length ≤ 1 := length_segments_le_one (Whole.trim hs h)
    omega
  | _ => trivial

theorem element_read_of_mem {text part : List Char} (h : part ∈ elements text) :
    (Token.read part).Element :=
  element_read (whole_of_mem_elements h).1

theorem not_counted_read {text : List Char} (ht : Trimmed text) (h : ¬ EndsInCount text) :
    ¬ (Token.read text).Counted := by
  rw [Token.read_eq, formOf, ht.trim_eq, repeatSuffix?_eq_none h]
  split_ifs <;> exact id

/-- A count at the end of the last element would have been read before the elements were cut. -/
theorem not_endsInCount_of_getLast? {word part : List Char} (hw : Trimmed word)
    (hc : repeatSuffix? word = none) (hn : 2 ≤ (elements word).length)
    (hp : part ∈ (elements word).getLast?) : ¬ EndsInCount part := by
  rintro ⟨front, digits, hd, hdigits, rfl⟩
  have hl := length_lt_of_mem_segments (List.mem_of_mem_getLast? hp) hn
  obtain ⟨lead, rfl⟩ := suffix_of_getLast?_segments (fun _ => weight_of_isBlank)
    (fun c hm => ⟨hw.last c hm, hw.last c hm⟩) hp
  have hne : lead ++ front ≠ [] := by
    intro he
    have hz : lead = [] := (List.append_eq_nil_iff.mp he).1
    simp [hz] at hl
  rw [← List.append_assoc, repeatSuffix?_append hne hd hdigits] at hc
  exact absurd hc (Option.some_ne_none _)

end Elements

theorem normalRoot_of_mem_nodes (text : List Char) :
    ∀ node ∈ (Token.read text).nodes, node.NormalRoot := by
  induction text using read_induction with
  | rest text => exact List.forall_mem_singleton.mpr trivial
  | repeated text base digits count _ _ ih =>
    exact List.forall_mem_cons.mpr ⟨Int.natCast_nonneg count, ih⟩
  | bracketed text inner _ ih => exact List.forall_mem_cons.mpr ⟨trivial, ih⟩
  | alternation text inner _ ih =>
    refine List.forall_mem_cons.mpr ⟨?_, ?_⟩
    · exact List.forall_mem_map.mpr fun choice hm => element_read_of_mem hm
    · rw [nodesAll_eq, List.forall_mem_flatMap, List.forall_mem_map]
      exact ih
  | sequence text hc hn ih =>
    refine List.forall_mem_cons.mpr ⟨⟨by rwa [List.length_map], ?_, ?_⟩, ?_⟩
    · intro last hm
      rw [List.getLast?_map] at hm
      obtain ⟨part, hp, rfl⟩ := Option.map_eq_some_iff.mp hm
      have hpart := (whole_of_mem_elements (List.mem_of_mem_getLast? hp)).2
      refine not_counted_read hpart (not_endsInCount_of_getLast? (trimmed_trim ?_) hc hn hp)
      intro he
      rw [he] at hn
      exact absurd hn (by decide)
    · exact List.forall_mem_map.mpr fun element hm => element_read_of_mem hm
    · rw [nodesAll_eq, List.forall_mem_flatMap, List.forall_mem_map]
      exact ih
  | atomic text ht hr =>
    refine List.forall_mem_singleton.mpr ?_
    rw [NormalRoot, String.toList_ofList]
    exact ⟨ht, hr⟩

section Size

theorem length_nodesAll_le {parts : List (List Char)}
    (h : ∀ part ∈ parts, part ≠ [] ∧ (Token.read part).nodes.length ≤ max 1 part.length) :
    (nodesAll (parts.map Token.read)).length + parts.length ≤ joinedLength parts := by
  induction parts with
  | nil => exact Nat.le_refl 0
  | cons first more ih =>
    obtain ⟨⟨hn, hf⟩, hm⟩ := List.forall_mem_cons.mp h
    have hi := ih hm
    have hp := List.length_pos_iff.mpr hn
    rw [List.map_cons, nodesAll, List.length_append, List.length_cons, joinedLength]
    omega

theorem length_nodesAll_elements_le {text : List Char}
    (h : ∀ part ∈ elements text, (Token.read part).nodes.length ≤ max 1 part.length) :
    (nodesAll ((elements text).map Token.read)).length + (elements text).length ≤
      text.length + 1 := by
  have hn : ∀ part ∈ elements text, part ≠ [] := fun _ hp => (whole_of_mem_elements hp).2.ne_nil
  exact (length_nodesAll_le fun part hp => ⟨hn part hp, h part hp⟩).trans
    (joinedLength_segments_le isBlank text)

theorem length_nodes_read_le (text : List Char) :
    (Token.read text).nodes.length ≤ max 1 text.length := by
  induction text using read_induction with
  | rest text => exact Nat.le_max_left _ _
  | repeated text base digits count hb he ih =>
    have ht := length_trim_le text
    have hp := List.length_pos_iff.mpr hb
    rw [he, List.length_append, List.length_cons] at ht
    rw [nodes, List.length_cons]
    omega
  | bracketed text inner he ih =>
    have ht := length_trim_le text
    rw [he, List.length_append, List.length_cons, List.length_singleton] at ht
    rw [nodes, List.length_cons]
    omega
  | alternation text inner he ih =>
    have ht := length_trim_le text
    have hl := length_nodesAll_elements_le ih
    rw [he, List.length_append, List.length_cons, List.length_singleton] at ht
    rw [nodes, List.length_cons]
    omega
  | sequence text _ hn ih =>
    have ht := length_trim_le text
    have hl := length_nodesAll_elements_le ih
    rw [nodes, List.length_cons]
    omega
  | atomic text => exact Nat.le_max_left _ _

end Size

/-- Each node of a tree that is read is in normal form, and the tree has no more nodes than its text
has characters, or just one. -/
theorem nodes_read (text : List Char) :
    (∀ node ∈ (Token.read text).nodes, node.NormalRoot) ∧
      (Token.read text).nodes.length ≤ max 1 text.length :=
  ⟨normalRoot_of_mem_nodes text, length_nodes_read_le text⟩

end Token

end StepSequencer
