/-
# What the environment may say

A word is compared in its normal form: without the blanks at its ends, and folded.  Blanks are those
of Unicode and letters fold as in ASCII alone, so folding makes no blank and takes none away
(`isBlank_toLower`), and the two steps may be taken in any order, or again (`normal_normal`).

| text | normal form |
| --- | --- |
| a word that folds to a trimmed word `w`, between blanks | `w` (`normal_surrounded`) |
| a normal form | itself |

A tier is read from the texts whose normal form is one of its spellings and from no others
(`Tier.ofText?_eq_some_iff`).  The value of the bound is normal before a tier is read from it, which
therefore makes no difference.  The tiers left of a mask are then one of three masks
(`Environment.mask_narrow`), none of which has a tier that was not there.
-/

import FrameConvert.Proofs.Masks
import FrameConvert.Environment
import Mathlib.Data.List.DropRight

namespace FrameConvert

namespace Text

/-- No blank at either end. -/
structure Trimmed (s : List Char) : Prop where
  first : ∀ c ∈ s.head?, isBlank c = false
  last : ∀ c ∈ s.getLast?, isBlank c = false

variable {s word before after : List Char}

/-- A character that folds is a capital letter, and its fold lies `0x20` further on. -/
theorem toLower_cases (c : Char) : c.toLower = c ∨
    0x41 ≤ c.toNat ∧ c.toNat ≤ 0x5A ∧ c.toLower.toNat = c.toNat + 0x20 := by
  by_cases hc : c.val ≥ 'A'.val ∧ c.val ≤ 'Z'.val
  · have hlow : 0x41 ≤ c.val.toNat := UInt32.le_iff_toNat_le.1 hc.1
    have hhigh : c.val.toNat ≤ 0x5A := UInt32.le_iff_toNat_le.1 hc.2
    have hstep : ('a'.val - 'A'.val).toNat = 0x20 := by decide
    have hfold : c.toLower.toNat = (c.val + ('a'.val - 'A'.val)).toNat :=
      congrArg Char.toNat (dif_pos hc)
    refine .inr ⟨hlow, hhigh, ?_⟩
    rw [hfold, UInt32.toNat_add, hstep]
    exact Nat.mod_eq_of_lt (by omega)
  · exact .inl (dif_neg hc)

theorem toLower_toLower (c : Char) : c.toLower.toLower = c.toLower := by
  rcases toLower_cases c with hc | ⟨hlow, -, hfold⟩
  · rw [hc, hc]
  · rcases toLower_cases c.toLower with hc | ⟨-, hhigh, -⟩
    · exact hc
    · omega

/-- There is no blank among the letters. -/
theorem isBlank_letter {c : Char} (hc : 0x41 ≤ c.toNat ∧ c.toNat ≤ 0x7A) : isBlank c = false := by
  simp only [isBlank, Bool.or_eq_false_iff, Bool.and_eq_false_iff, decide_eq_false_iff_not,
    beq_eq_false_iff_ne]
  omega

/-- **Folding makes no blank** and takes none away. -/
theorem isBlank_toLower (c : Char) : isBlank c.toLower = isBlank c := by
  rcases toLower_cases c with hc | ⟨hlow, hhigh, hfold⟩
  · rw [hc]
  · rw [isBlank_letter (c := c) (by omega), isBlank_letter (c := c.toLower) (by omega)]

theorem trimmed_of_solid (h : ∀ c ∈ s, isBlank c = false) : Trimmed s :=
  ⟨fun c hc => h c (List.mem_of_mem_head? hc), fun c hc => h c (List.mem_of_mem_getLast? hc)⟩

theorem trimmed_map_toLower : Trimmed (s.map Char.toLower) ↔ Trimmed s := by
  constructor
  · rintro ⟨hfirst, hlast⟩
    constructor
    · intro c hc
      rw [← isBlank_toLower]
      exact hfirst _ (by rw [List.head?_map]; exact Option.mem_map_of_mem _ hc)
    · intro c hc
      rw [← isBlank_toLower]
      exact hlast _ (by rw [List.getLast?_map]; exact Option.mem_map_of_mem _ hc)
  · rintro ⟨hfirst, hlast⟩
    constructor
    · intro c hc
      rw [List.head?_map] at hc
      obtain ⟨d, hd, rfl⟩ := Option.mem_map.1 hc
      rw [isBlank_toLower]
      exact hfirst d hd
    · intro c hc
      rw [List.getLast?_map] at hc
      obtain ⟨d, hd, rfl⟩ := Option.mem_map.1 hc
      rw [isBlank_toLower]
      exact hlast d hd

/-- **A trimmed word between blanks** is what is left of them. -/
theorem trimChars_surrounded (hbefore : ∀ c ∈ before, isBlank c = true) (hword : Trimmed word)
    (hafter : ∀ c ∈ after, isBlank c = true) : trimChars (before ++ word ++ after) = word := by
  have hfront :
      (before ++ word ++ after).dropWhile isBlank = (word ++ after).dropWhile isBlank := by
    rw [List.append_assoc, List.dropWhile_append_of_pos hbefore]
  cases word with
  | nil =>
    rw [trimChars, hfront, List.nil_append, List.dropWhile_eq_nil_iff.2 hafter]
    rfl
  | cons c cs =>
    have hback : (c :: cs).rdropWhile isBlank = c :: cs :=
      List.rdropWhile_eq_self_iff.2 fun hne =>
        Bool.eq_false_iff.1 (hword.last _ (List.getLast?_eq_some_getLast hne))
    have hc : isBlank c = false := hword.first c rfl
    rw [trimChars, hfront, List.cons_append, List.dropWhile_cons_of_neg (by simp [hc]),
      ← List.cons_append, List.reverse_append,
      List.dropWhile_append_of_pos fun d hd => hafter d (List.mem_reverse.1 hd)]
    exact hback

theorem trimChars_of_trimmed (h : Trimmed s) : trimChars s = s := by
  have hnone : ∀ c ∈ ([] : List Char), isBlank c = true := fun c hc => absurd hc List.not_mem_nil
  have hall := trimChars_surrounded hnone h hnone
  rwa [List.nil_append, List.append_nil] at hall

/-- **What is left is trimmed.** -/
theorem trimmed_trimChars (s : List Char) : Trimmed (trimChars s) := by
  constructor
  · intro c hc
    obtain ⟨rest, hrest⟩ := List.rdropWhile_prefix isBlank (s.dropWhile isBlank)
    have hhead : (s.dropWhile isBlank).head? = some c := by
      rw [← hrest, List.head?_append]
      exact Option.or_eq_some_iff.2 (.inl hc)
    have hstop := List.head?_dropWhile_not isBlank s
    rwa [hhead] at hstop
  · intro c hc
    rw [trimChars, List.getLast?_reverse] at hc
    have hstop := List.head?_dropWhile_not isBlank (s.dropWhile isBlank).reverse
    rwa [hc] at hstop

theorem toList_normal (s : String) :
    (normal s).toList = (trimChars s.toList).map Char.toLower := by
  rw [normal, lower, trim, String.toList_ofList, String.toList_ofList]

/-- **A normal form is its own.** -/
theorem normal_normal (s : String) : normal (normal s) = normal s := by
  have htrimmed : Trimmed (normal s).toList := by
    rw [toList_normal]
    exact trimmed_map_toLower.2 (trimmed_trimChars _)
  refine String.toList_inj.1 ?_
  rw [toList_normal, trimChars_of_trimmed htrimmed, toList_normal, List.map_map]
  exact List.map_congr_left fun c _ => toLower_toLower c

/-- **A word between blanks,** in any casing. -/
theorem normal_surrounded {before word after w : String}
    (hbefore : ∀ c ∈ before.toList, isBlank c = true) (hw : Trimmed w.toList)
    (hword : lower word = w) (hafter : ∀ c ∈ after.toList, isBlank c = true) :
    normal (before ++ word ++ after) = w := by
  have hfold : word.toList.map Char.toLower = w.toList := by
    rw [← hword, lower, String.toList_ofList]
  have htrimmed : Trimmed word.toList := trimmed_map_toLower.1 (hfold ▸ hw)
  refine String.toList_inj.1 ?_
  rw [toList_normal, String.toList_append, String.toList_append,
    trimChars_surrounded hbefore htrimmed hafter, hfold]

end Text

namespace Tier

variable {t : Tier}

/-- The words that name a tier. -/
def spellings : Tier → List String
  | portable => ["portable", "none"]
  | sse2 => ["sse2"]
  | sse41 => ["sse41", "sse4.1"]
  | avx2 => ["avx2"]
  | neon => ["neon"]

theorem name_mem_spellings (t : Tier) : t.name ∈ t.spellings := by
  cases t <;> decide

theorem trimmed_spelling {w : String} (hw : w ∈ t.spellings) : Text.Trimmed w.toList := by
  have hsolid : ∀ w ∈ t.spellings, w.toList.any Text.isBlank = false := by
    cases t <;> decide
  exact Text.trimmed_of_solid fun c hc =>
    Bool.eq_false_iff.2 (List.any_eq_false.1 (hsolid w hw) c hc)

/-- A folded word names the tier that it is a spelling of. -/
theorem ofWord?_eq_some_iff {w : String} : ofWord? w = some t ↔ w ∈ t.spellings := by
  have hall : ∀ t : Tier, ∀ w ∈ t.spellings, ofWord? w = some t := by
    intro t
    cases t <;> decide
  refine ⟨fun h => ?_, hall t w⟩
  unfold ofWord? at h
  split_ifs at h with hportable hsse2 hsse41 havx2 hneon
  · cases h
    simpa [spellings] using hportable
  · cases h
    simpa [spellings] using hsse2
  · cases h
    simpa [spellings] using hsse41
  · cases h
    simpa [spellings] using havx2
  · cases h
    simpa [spellings] using hneon

/-- **What a tier is read from.** -/
theorem ofText?_eq_some_iff {s : String} : ofText? s = some t ↔ Text.normal s ∈ t.spellings :=
  ofWord?_eq_some_iff

/-- A normal form names what the text does. -/
theorem ofText?_normal (s : String) : ofText? (Text.normal s) = ofText? s := by
  rw [ofText?, ofText?, Text.normal_normal]

end Tier

namespace Environment

/-- The words that mean yes. -/
def yes : List String := ["1", "true", "yes", "on"]

variable {e : Environment}

theorem disabled_iff : e.disabled = true ↔ ∃ v ∈ e.disable, Text.normal v ∈ yes := by
  simp only [disabled, Option.any_eq_true, isTruthy, List.contains_iff_mem, yes, Option.mem_def]

theorem not_disabled_iff : ¬e.disabled = true ↔ ∀ v ∈ e.disable, Text.normal v ∉ yes := by
  rw [disabled_iff]
  push Not
  rfl

/-- **The bound that is applied** is the tier that its value names as it was given.  A blank value
counts as unset, and a blank names no tier. -/
theorem bound?_bind (e : Environment) :
    e.bound?.bind Tier.ofText? = e.maxTier.bind Tier.ofText? := by
  rw [bound?]
  cases e.maxTier with
  | none => rfl
  | some s =>
    rw [Option.map_some, Option.bind_some, ← Tier.ofText?_normal]
    by_cases hs : Text.normal s = ""
    · rw [Option.filter_some_neg (by simp [hs]), hs, Option.bind_none]
      decide +kernel
    · rw [Option.filter_some_pos (by simp [hs]), Option.bind_some]

/-- **What is left of a mask.** -/
theorem mask_narrow (e : Environment) (host : Mask) :
    (e.narrow host).mask =
      if e.disabled then Mask.none else (e.maxTier.bind Tier.ofText?).elim host host.upTo := by
  rw [← bound?_bind, narrow]
  split
  · rfl
  · cases e.bound? with
    | none => rfl
    | some word =>
      rw [Option.bind_some]
      cases hword : Tier.ofText? word with
      | none => simp only [hword, Option.elim_none]
      | some t => simp only [hword, Option.elim_some]

/-- **No tier is gained.** -/
theorem contains_of_narrow {host : Mask} {t : Tier} (ht : (e.narrow host).mask.contains t = true) :
    host.contains t = true := by
  by_cases ht₀ : t = .portable
  · rw [ht₀]
    rfl
  · rw [mask_narrow] at ht
    split at ht
    · refine absurd ?_ ht₀
      cases t <;> first | rfl | cases ht
    · cases hbound : e.maxTier.bind Tier.ofText? with
      | none =>
        rw [hbound] at ht
        exact ht
      | some b =>
        rw [hbound, Option.elim_some, Mask.upTo, Mask.contains_filter _ _ ht₀,
          Bool.and_eq_true] at ht
        exact ht.1

/-- **Overrides accept exactly their grammar, and never widen.**  Of any detected mask nothing is
left where the first variable means yes, whatever the other one says; otherwise the tiers up to the
one that the second variable names; and otherwise, where it is unset, blank or no name, all.  A text
names a tier if, trimmed and folded, it is one of its spellings, and then only; so every casing of a
name does, with any blanks around it, and a text that has been trimmed and folded before names what
it named. -/
theorem overrides_accept_their_grammar :
    (∀ (host : Mask) (e : Environment),
      ((∃ v ∈ e.disable, Text.normal v ∈ yes) → (e.narrow host).mask = Mask.none) ∧
      ((∀ v ∈ e.disable, Text.normal v ∉ yes) →
        (∀ s t, e.maxTier = some s → Tier.ofText? s = some t →
          (e.narrow host).mask = host.upTo t) ∧
        ((∀ s ∈ e.maxTier, Tier.ofText? s = none) → (e.narrow host).mask = host)) ∧
      ∀ t, (e.narrow host).mask.contains t = true → host.contains t = true) ∧
    (∀ s t, Tier.ofText? s = some t ↔ Text.normal s ∈ t.spellings) ∧
    (∀ t before word after, (∀ c ∈ before.toList, Text.isBlank c = true) →
      Text.lower word ∈ t.spellings → (∀ c ∈ after.toList, Text.isBlank c = true) →
        Tier.ofText? (before ++ word ++ after) = some t) ∧
    (∀ t : Tier, t.name ∈ t.spellings) ∧
    ∀ s, Tier.ofText? (Text.normal s) = Tier.ofText? s := by
  refine ⟨fun host e => ⟨fun hyes => ?_, fun hno => ⟨fun s t hs ht => ?_, fun hnone => ?_⟩,
    fun t => contains_of_narrow⟩, fun s t => Tier.ofText?_eq_some_iff,
    fun t before word after hbefore hword hafter => ?_, Tier.name_mem_spellings,
    Tier.ofText?_normal⟩
  · rw [mask_narrow, if_pos (disabled_iff.2 hyes)]
  · rw [mask_narrow, if_neg (not_disabled_iff.2 hno), hs, Option.bind_some, ht, Option.elim_some]
  · rw [mask_narrow, if_neg (not_disabled_iff.2 hno), Option.bind_eq_none_iff.2 hnone,
      Option.elim_none]
  · rw [Tier.ofText?_eq_some_iff,
      Text.normal_surrounded hbefore (Tier.trimmed_spelling hword) rfl hafter]
    exact hword

/-- A machine where acceleration is not turned off and the bound is `SSE4.1` between an em space and
a line feed; and one where the bound is right and acceleration is turned off all the same. -/
theorem probed_with_bound_between_blanks :
    Tier.ofText? ("\u2003" ++ "SSE4.1" ++ "\n") = some .sse41 ∧
    (probe ⟨some "0", some ("\u2003" ++ "SSE4.1" ++ "\n")⟩).mask = Mask.detected.upTo .sse41 ∧
    (probe ⟨some " Yes", some "avx2"⟩).mask = Mask.none := by
  obtain ⟨hprobe, -, hcasing, -⟩ := overrides_accept_their_grammar
  have hbound := hcasing .sse41 "\u2003" "SSE4.1" "\n" (List.all_eq_true.1 (by decide))
    (by decide) (List.all_eq_true.1 (by decide))
  obtain ⟨-, hon, -⟩ := hprobe .detected ⟨some "0", some ("\u2003" ++ "SSE4.1" ++ "\n")⟩
  obtain ⟨hoff, -⟩ := hprobe .detected ⟨some " Yes", some "avx2"⟩
  refine ⟨hbound, (hon ?_).1 _ _ rfl hbound, hoff ⟨_, rfl, by decide +kernel⟩⟩
  rintro v ⟨⟩
  decide +kernel

end Environment
end FrameConvert
