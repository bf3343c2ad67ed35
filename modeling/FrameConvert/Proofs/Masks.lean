/-
# Masks only narrow

A step that narrows a mask keeps the tiers that pass its test and loses the others:

| step | keeps a tier `t` where | clears in a word the bits of |
| --- | --- | --- |
| `upTo b` | `t.rank ≤ b.rank` | all tiers above `b` |
| `without s` | `t ≠ s` | `s` |

So after any number of steps a mask has those tiers of the first one that pass all the tests
(`contains_narrowAll`, by induction over the steps), and neither the order of the steps nor how
often one is taken makes a difference (`narrowAll_congr`).  A tier that is lost does not come back.

There are four ways to look at a mask, and each of them tells all of it:

| of a mask `m` | is |
| --- | --- |
| `m.contains` | a test that `portable` always passes |
| `m.tiers` | the other tiers that pass, ascending (`ext_tiers`) |
| `m.text` | `portable`, and `+` with the name of each of them (`text_eq`, `ext_text`) |
| `m.word` | their bits, at the places of their ranks (`testBit_word`) |

The bit of `portable` is never set, so a mask is empty just if its word is zero.
-/

import FrameConvert.Proofs.Precedence

namespace FrameConvert

/-- The bit of a tier in a word. -/
def Tier.bit (t : Tier) : BitVec 8 := 1#8 <<< t.rank

/-- The names of tiers differ. -/
theorem Tier.name_injective {s t : Tier} (h : s.name = t.name) : s = t := by
  have hs := s.ofText?_name
  rw [h, t.ofText?_name] at hs
  exact (Option.some.inj hs).symm

/-- There is no `+` in the name of a tier. -/
theorem Tier.plus_notMem_name (t : Tier) : '+' ∉ t.name.toList := by
  cases t <;> decide

namespace Mask

namespace Narrowing

/-- Whether a step keeps a tier. -/
def keeps : Narrowing → Tier → Bool
  | upTo b, t => decide (t.rank ≤ b.rank)
  | without s, t => decide (t ≠ s)

/-- The tiers that a step takes away. -/
def lost (s : Narrowing) : List Tier := Tier.all.filter fun t => !s.keeps t

/-- A word after a step: the bits of what the step takes away are cleared. -/
def clear (w : BitVec 8) (s : Narrowing) : BitVec 8 :=
  s.lost.foldl (fun w t => w &&& ~~~t.bit) w

theorem mem_lost {s : Narrowing} {t : Tier} : t ∈ s.lost ↔ s.keeps t = false := by
  have hall : t ∈ Tier.all := by cases t <;> decide
  simp [lost, hall]

/-- What all steps keep, bound by bound and name by name. -/
theorem forall_keeps_iff {steps : List Narrowing} {t : Tier} :
    (∀ s ∈ steps, s.keeps t = true) ↔
      (∀ b, upTo b ∈ steps → t.rank ≤ b.rank) ∧ without t ∉ steps := by
  constructor
  · intro h
    refine ⟨fun b hb => of_decide_eq_true (h _ hb), fun ht => ?_⟩
    exact of_decide_eq_true (h _ ht) rfl
  · rintro ⟨hbounds, hnamed⟩ s hs
    cases s with
    | upTo b => exact decide_eq_true (hbounds b hs)
    | without s =>
      refine decide_eq_true ?_
      rintro rfl
      exact hnamed hs

end Narrowing

/-- A mask as a word: the bits of its tiers. -/
def word (m : Mask) : BitVec 8 := m.tiers.foldl (fun w t => w ||| t.bit) 0#8

variable {m n : Mask} {t : Tier} {steps steps' : List Narrowing}

section Content

/-- **One step:** what the mask has and the step keeps. -/
theorem contains_narrow (m : Mask) (s : Narrowing) (ht : t ≠ .portable) :
    (m.narrow s).contains t = (m.contains t && s.keeps t) := by
  cases s with
  | upTo b => exact m.contains_filter _ ht
  | without s => exact m.contains_filter _ ht

/-- **A run of steps:** what the first mask has and all of them keep. -/
theorem contains_narrowAll (ht : t ≠ .portable) (steps : List Narrowing) : ∀ m : Mask,
    (m.narrowAll steps).contains t = true ↔
      m.contains t = true ∧ ∀ s ∈ steps, s.keeps t = true := by
  induction steps with
  | nil => simp [narrowAll]
  | cons s steps ih =>
    intro m
    have hrun : m.narrowAll (s :: steps) = (m.narrow s).narrowAll steps := rfl
    rw [hrun, ih, contains_narrow m s ht, Bool.and_eq_true, List.forall_mem_cons, and_assoc]

/-- Masks with the same tiers are equal. -/
theorem ext_contains (h : ∀ t, t ≠ .portable → (m.contains t = true ↔ n.contains t = true)) :
    m = n := by
  have hbit : ∀ t, t ≠ .portable → m.contains t = n.contains t := fun t ht =>
    Bool.eq_iff_iff.2 (h t ht)
  obtain ⟨a, b, c, d⟩ := m
  obtain ⟨a', b', c', d'⟩ := n
  have h₁ : a = a' := hbit .sse2 (by decide)
  have h₂ : b = b' := hbit .sse41 (by decide)
  have h₃ : c = c' := hbit .avx2 (by decide)
  have h₄ : d = d' := hbit .neon (by decide)
  rw [h₁, h₂, h₃, h₄]

/-- **The same steps,** in whatever order and however often, leave the same mask. -/
theorem narrowAll_congr (m : Mask) (h : ∀ s, s ∈ steps ↔ s ∈ steps') :
    m.narrowAll steps = m.narrowAll steps' := by
  refine ext_contains fun t ht => ?_
  simp only [contains_narrowAll ht, h]

end Content

section Listing

theorem ext_tiers (h : m.tiers = n.tiers) : m = n := by
  refine ext_contains fun t ht => ?_
  have hm := mem_tiers (m := m) (t := t)
  rw [h, mem_tiers] at hm
  exact ⟨fun ht' => (hm.2 ⟨ht, ht'⟩).2, fun ht' => (hm.1 ⟨ht, ht'⟩).2⟩

theorem isEmpty_iff : m.isEmpty = true ↔ m.tiers = [] := by
  rw [isEmpty, beq_iff_eq]
  constructor
  · rintro rfl
    rfl
  · intro h
    exact ext_tiers (h.trans rfl)

/-- **The best tier** of a mask is one of its own, or `portable` where it has none. -/
theorem best_mem (m : Mask) : m.best ∈ m.tiers ∨ m.tiers = [] ∧ m.best = .portable := by
  unfold best
  rcases List.eq_nil_or_concat m.tiers with h | ⟨ts, t, h⟩
  · rw [h]
    exact .inr ⟨rfl, rfl⟩
  · rw [h, List.concat_eq_append, List.getLastD_concat]
    exact .inl (List.mem_append_right ts List.mem_cons_self)

/-- **And none is above it,** for it is the last of tiers that ascend. -/
theorem rank_le_best (ht : t ∈ m.tiers) : t.rank ≤ m.best.rank := by
  have hascending := m.tiers_ascending
  unfold best
  rcases List.eq_nil_or_concat m.tiers with h | ⟨ts, s, h⟩
  · rw [h] at ht
    cases ht
  · rw [h, List.concat_eq_append] at ht hascending ⊢
    rw [List.getLastD_concat]
    rcases List.mem_append.1 ht with ht | ht
    · have hlt := (List.pairwise_append.1 hascending).2.2 t ht s List.mem_cons_self
      exact Nat.le_of_lt hlt
    · rw [List.mem_singleton.1 ht]

end Listing

section Text

/-- Words behind a first one, each behind a separator. -/
theorem intercalate_cons {α : Type} (c : α) (ws : List (List α)) : ∀ w : List α,
    [c].intercalate (w :: ws) = w ++ ws.flatMap (c :: ·) := by
  induction ws with
  | nil => simp
  | cons w' ws ih =>
    intro w
    rw [List.intercalate_cons_cons, ih, List.flatMap_cons, List.append_assoc,
      List.singleton_append, List.cons_append]

/-- The characters of the text of a mask. -/
theorem toList_text (m : Mask) :
    m.text.toList = ['+'].intercalate
      ((Tier.portable :: m.tiers).map fun t => t.name.toList) := by
  rw [text, String.toList_intercalate, ← List.map_cons, List.map_map]
  rfl

/-- **The text of a mask** is `portable`, and `+` with the name of each tier. -/
theorem text_eq (m : Mask) :
    m.text = "portable" ++ String.join (m.tiers.map fun t => "+" ++ t.name) := by
  refine String.toList_inj.1 ?_
  rw [toList_text, List.map_cons, intercalate_cons, String.toList_append, String.toList_join,
    List.flatMap_map, List.flatMap_map]
  simp only [String.toList_append]
  rfl

/-- **It tells the mask,** for a text that is cut at every `+` gives the names back. -/
theorem ext_text (h : m.text = n.text) : m = n := by
  have hcut : ∀ m : Mask, m.text.toList.splitOn '+' =
      (Tier.portable :: m.tiers).map fun t => t.name.toList := by
    intro m
    rw [toList_text, List.splitOn_intercalate]
    · intro w hw
      obtain ⟨t, -, rfl⟩ := List.mem_map.1 hw
      exact t.plus_notMem_name
    · simp
  have hnames := hcut m
  rw [h, hcut n] at hnames
  have hinjective : Function.Injective fun t : Tier => t.name.toList := fun s t hst =>
    Tier.name_injective (String.toList_inj.1 hst)
  exact ext_tiers (List.tail_eq_of_cons_eq (hinjective.list_map hnames)).symm

end Text

section Words

variable {i : Nat}

/-- The one bit of a tier is at the place of its rank. -/
theorem testBit_bit (t : Tier) (hi : i < 8) : t.bit.getLsbD i = decide (t.rank = i) := by
  revert i
  cases t <;> decide

/-- Bits are set. -/
theorem testBit_set (hi : i < 8) (ts : List Tier) : ∀ w : BitVec 8,
    (ts.foldl (fun w t => w ||| t.bit) w).getLsbD i =
      (w.getLsbD i || ts.any fun t => decide (t.rank = i)) := by
  induction ts with
  | nil => simp
  | cons t ts ih =>
    intro w
    rw [List.foldl_cons, ih, BitVec.getLsbD_or, testBit_bit t hi, List.any_cons, Bool.or_assoc]

/-- Bits are cleared. -/
theorem testBit_cleared (hi : i < 8) (ts : List Tier) : ∀ w : BitVec 8,
    (ts.foldl (fun w t => w &&& ~~~t.bit) w).getLsbD i =
      (w.getLsbD i && ts.all fun t => !decide (t.rank = i)) := by
  induction ts with
  | nil => simp
  | cons t ts ih =>
    intro w
    rw [List.foldl_cons, ih, BitVec.getLsbD_and, BitVec.getLsbD_not, testBit_bit t hi,
      decide_eq_true hi, Bool.true_and, List.all_cons, Bool.and_assoc]

theorem rank_lt (t : Tier) : t.rank < 8 := by cases t <;> decide

/-- The bits of a word are those of the tiers. -/
theorem getLsbD_word (m : Mask) (hi : i < 8) :
    m.word.getLsbD i = true ↔ ∃ t ∈ m.tiers, t.rank = i := by
  rw [word, testBit_set hi]
  simp

/-- **The bit of a tier is set** just if it is one of the tiers; so that of `portable` never is. -/
theorem testBit_word (m : Mask) (t : Tier) : m.word.getLsbD t.rank = true ↔ t ∈ m.tiers := by
  rw [getLsbD_word m (rank_lt t)]
  constructor
  · rintro ⟨s, hs, hrank⟩
    rwa [← Tier.rank_injective hrank]
  · exact fun ht => ⟨t, ht, rfl⟩

theorem word_eq_zero_iff : m.word = 0#8 ↔ m.tiers = [] := by
  constructor
  · intro h
    refine List.eq_nil_iff_forall_not_mem.2 fun t ht => ?_
    have hbit := (testBit_word m t).2 ht
    rw [h, BitVec.getLsbD_zero] at hbit
    cases hbit
  · intro h
    rw [word, h]
    rfl

/-- **One step clears bits,** and sets none. -/
theorem word_narrow (m : Mask) (s : Narrowing) : (m.narrow s).word = s.clear m.word := by
  refine BitVec.eq_of_getLsbD_eq fun i hi => Bool.eq_iff_iff.2 ?_
  rw [getLsbD_word _ hi, Narrowing.clear, testBit_cleared hi, Bool.and_eq_true, getLsbD_word m hi]
  simp only [List.all_eq_true, Bool.not_eq_true', decide_eq_false_iff_not]
  constructor
  · rintro ⟨t, ht, rfl⟩
    obtain ⟨ht₀, hcontains⟩ := mem_tiers.1 ht
    rw [contains_narrow m s ht₀, Bool.and_eq_true] at hcontains
    refine ⟨⟨t, mem_tiers.2 ⟨ht₀, hcontains.1⟩, rfl⟩, fun l hl hrank => ?_⟩
    have hkept := Narrowing.mem_lost.1 hl
    rw [Tier.rank_injective hrank, hcontains.2] at hkept
    cases hkept
  · rintro ⟨⟨t, ht, rfl⟩, hlost⟩
    obtain ⟨ht₀, hcontains⟩ := mem_tiers.1 ht
    refine ⟨t, mem_tiers.2 ⟨ht₀, ?_⟩, rfl⟩
    rw [contains_narrow m s ht₀, hcontains, Bool.true_and]
    by_contra hkeeps
    exact hlost t (Narrowing.mem_lost.2 (Bool.eq_false_iff.2 hkeeps)) rfl

/-- **A run of steps** clears bits step by step. -/
theorem word_narrowAll (steps : List Narrowing) : ∀ m : Mask,
    (m.narrowAll steps).word = steps.foldl Narrowing.clear m.word := by
  induction steps with
  | nil => exact fun m => rfl
  | cons s steps ih =>
    intro m
    rw [List.foldl_cons, ← word_narrow]
    exact ih (m.narrow s)

end Words

/-- **All that is shown of a mask** tells its tiers. -/
structure Faithful (m : Mask) : Prop where
  portable : m.contains .portable = true
  listed : ∀ t, t ∈ m.tiers ↔ t ≠ .portable ∧ m.contains t = true
  ascending : m.tiers.Pairwise fun s t => s.rank < t.rank
  best : m.best ∈ m.tiers ∨ m.tiers = [] ∧ m.best = .portable
  highest : ∀ t ∈ m.tiers, t.rank ≤ m.best.rank
  empty : m.isEmpty = true ↔ m.tiers = []
  bits : ∀ t, m.word.getLsbD t.rank = true ↔ t ∈ m.tiers
  zero : m.isEmpty = true ↔ m.word = 0#8
  text : m.text = "portable" ++ String.join (m.tiers.map fun t => "+" ++ t.name)
  telling : ∀ n : Mask, m.text = n.text → m = n

theorem faithful (m : Mask) : m.Faithful where
  portable := rfl
  listed _ := mem_tiers
  ascending := m.tiers_ascending
  best := m.best_mem
  highest _ := rank_le_best
  empty := isEmpty_iff
  bits := m.testBit_word
  zero := isEmpty_iff.trans word_eq_zero_iff.symm
  text := m.text_eq
  telling _ := ext_text

/-- **Masks only ever narrow, and the order of the steps does not matter.**  After any steps a mask
has those accelerated tiers of the first one that are above no bound and named by no step; the same
steps in another order, or taken more often, leave the same mask; and in its word bits are cleared,
none set.  Then as before, `portable` is there whatever was taken away, the tiers are listed
ascending, the best of them is the highest, or `portable` in an empty mask, and the text is
`portable` with `+` and the name of each tier, which tells the mask. -/
theorem masks_only_narrow (start : Mask) (steps : List Narrowing) :
    (∀ t, t ≠ .portable → ((start.narrowAll steps).contains t = true ↔
      start.contains t = true ∧ (∀ b, .upTo b ∈ steps → t.rank ≤ b.rank) ∧
        .without t ∉ steps)) ∧
    (∀ steps', (∀ s, s ∈ steps ↔ s ∈ steps') →
      start.narrowAll steps = start.narrowAll steps') ∧
    (start.narrowAll steps).word = steps.foldl Narrowing.clear start.word ∧
    (start.narrowAll steps).Faithful := by
  refine ⟨fun t ht => ?_, fun steps' h => narrowAll_congr start h, word_narrowAll steps start,
    faithful _⟩
  rw [contains_narrowAll ht, Narrowing.forall_keeps_iff]

/-- The detected tiers up to `sse41` and without `sse2`, in another order with the bound taken twice
and `portable` taken away. -/
theorem detected_narrowed_to_sse41 :
    Mask.detected.narrowAll [.upTo .sse41, .without .sse2] =
      Mask.detected.narrowAll [.without .sse2, .upTo .sse41, .upTo .sse41] ∧
    (Mask.detected.narrowAll [.upTo .sse41, .without .sse2, .without .portable]).text =
      "portable" ++ String.join ["+sse41"] := by
  obtain ⟨-, halike, -⟩ := masks_only_narrow .detected [.upTo .sse41, .without .sse2]
  obtain ⟨-, -, -, hfaithful⟩ :=
    masks_only_narrow .detected [.upTo .sse41, .without .sse2, .without .portable]
  refine ⟨halike _ fun s => ?_, hfaithful.text.trans rfl⟩
  simp [or_comm]

end Mask
end FrameConvert
