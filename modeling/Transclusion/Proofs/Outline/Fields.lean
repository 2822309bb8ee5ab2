import Transclusion.Outline.Markup
import Transclusion.Outline.Line
import Transclusion.Proofs.Text.Blank
import Transclusion.Proofs.Text.Fold

namespace Transclusion

open Text

def IsName (n : Text) : Prop :=
  n ≠ [] ∧ ∀ c ∈ n, isBlank c = false ∧ c ≠ ':'

-- The name and the value on a line that starts with `lead`.
def field? (lead line : Text) : Option (Text × Text) := do
  let s ← after? lead (trimStart line)
  let (name, r) ← takeName? s
  let value ← valueAfterColon? r
  some (name, value)

-- A value as it prints behind the colon.
def afterColon : Text → Text
  | [] => []
  | v => ' ' :: v

def fieldLine (lead name value : Text) : Text :=
  lead ++ name ++ ':' :: afterColon value

variable {lead line line' name value r r' s : Text}

section Reading

theorem takeName?_eq_some_iff : takeName? s = some (name, r) ↔ IsName name ∧ s = name ++ ':' :: r := by
  constructor
  case mp =>
    intro h
    rw [takeName?] at h
    split at h
    case h_1 => cases h
    case h_3 => cases h
    case h_2 hd hn =>
      cases h
      refine ⟨⟨hn, fun c hc => ?_⟩, ?_⟩
      · simpa using List.mem_takeWhile_imp hc
      · rw [←hd, List.takeWhile_append_dropWhile]
  case mpr =>
    rintro ⟨⟨hn, hc⟩, rfl⟩
    have hp : ∀ c ∈ name, (!isBlank c && c != ':') = true := by simpa using hc
    obtain ⟨c, n, rfl⟩ := List.exists_cons_of_ne_nil hn
    rw [takeName?, List.takeWhile_append_of_pos hp, List.dropWhile_append_of_pos hp]
    simp

theorem valueAfterColon?_eq_some_iff :
    valueAfterColon? r = some value ↔ r.head?.all isBlank ∧ value = trim r := by
  rw [valueAfterColon?]
  split
  case isTrue h  => simp [h, eq_comm]
  case isFalse h => simp [h]

theorem field?_eq_some_iff :
    field? lead line = some (name, value) ↔
      ∃ r, trimStart line = lead ++ name ++ ':' :: r ∧ IsName name ∧ r.head?.all isBlank ∧
        value = trim r := by
  simp only [field?, bind, Option.bind_eq_some_iff, Option.some.injEq, Prod.mk.injEq, Prod.exists,
    after?_eq_some_iff, takeName?_eq_some_iff, valueAfterColon?_eq_some_iff, List.append_assoc]
  constructor
  case mp =>
    rintro ⟨_, ht, n, r, ⟨hn, rfl⟩, v, ⟨hr, hv⟩, rfl, rfl⟩
    exact ⟨r, ht, hn, hr, hv⟩
  case mpr =>
    rintro ⟨r, ht, hn, hr, hv⟩
    exact ⟨_, ht, name, r, ⟨hn, rfl⟩, value, ⟨hr, hv⟩, rfl, rfl⟩

theorem property?_eq_field? (line : Text) : Drawer.property? line = field? [':'] line := rfl

theorem Keyword.ofLine?_eq_field? (line : Text) :
    Keyword.ofLine? line =
      (field? "#+".toList line).map fun (name, value) =>
        { key := "#+".toList ++ name ++ [':'], value := given (some value) } := by
  simp only [Keyword.ofLine?, field?, bind, Option.map_bind, Function.comp_def, Option.map_some]

end Reading

section Values

theorem trim_afterColon (h : trim value = value) : trim (afterColon value) = value := by
  cases value
  case nil      => rfl
  case cons c v => exact (trim_cons_of_isBlank rfl _).trans h

theorem head_afterColon (value : Text) : (afterColon value).head?.all isBlank := by
  cases value
  case nil      => rfl
  case cons c v => exact rfl

theorem isFlat_afterColon (h : IsFlat value) : IsFlat (afterColon value) := by
  cases value
  case nil      => exact h
  case cons c v => exact List.forall_mem_cons.mpr ⟨rfl, h⟩

theorem IsName.isFlat (h : IsName name) : IsFlat name :=
  IsSolid.isFlat fun c hc => (h.right c hc).left

end Values

section Printing

theorem propertyMarkup_eq_fieldLine (name value : Text) :
    Drawer.propertyMarkup (name, value) = fieldLine [':'] name value ++ ['\n'] := by
  cases value <;> simp [Drawer.propertyMarkup, fieldLine, afterColon]

theorem Keyword.markup_eq_fieldLine (name value : Text) :
    Keyword.markup { key := "#+".toList ++ name ++ [':'], value := given (some value) } =
      fieldLine "#+".toList name value ++ ['\n'] := by
  cases value <;> simp [Keyword.markup, given, fieldLine, afterColon]

-- The first character of a line counts if it is no blank.
def Leads (lead : Text) : Prop :=
  ∃ c s, lead = c :: s ∧ isBlank c = false

variable {lead : Text}

theorem trimStart_fieldLine (hl : Leads lead) (name value : Text) :
    trimStart (fieldLine lead name value) = lead ++ name ++ ':' :: afterColon value := by
  obtain ⟨c, s, rfl, hc⟩ := hl
  exact trimStart_cons_of_not_isBlank hc _

theorem field?_fieldLine (hl : Leads lead) (hn : IsName name) (hv : trim value = value) :
    field? lead (fieldLine lead name value) = some (name, value) := by
  rw [field?_eq_some_iff]
  exact ⟨afterColon value, trimStart_fieldLine hl name value, hn, head_afterColon value, (trim_afterColon hv).symm⟩

-- What is read from a line prints as a flat line.
theorem isFlat_fieldLine (h : field? lead line = some (name, value)) (hl : IsFlat lead)
    (hs : IsSmooth line) : IsFlat (fieldLine lead name value) := by
  obtain ⟨r, ht, hn, _, rfl⟩ := field?_eq_some_iff.mp h
  have hr : r.Sublist line := by
    refine List.Sublist.trans ?_ (List.dropWhile_sublist isBlank)
    rw [show line.dropWhile isBlank = _ from ht]
    exact (List.sublist_cons_self ':' r).trans (List.sublist_append_right _ _)
  have hv : IsFlat (trim r) := (hs.sublist ((List.dropWhile_sublist isBlank).trans hr)).isFlat_trimEnd
  exact isFlat_append.mpr ⟨isFlat_append.mpr ⟨hl, hn.isFlat⟩,
    List.forall_mem_cons.mpr ⟨rfl, isFlat_afterColon hv⟩⟩

end Printing

section Lookalikes

-- Whether a line opens a block is decided before its first colon.
theorem Block.opens?_congr {s r r' : Text} (h : trimStart line = s ++ ':' :: r)
    (h' : trimStart line' = s ++ ':' :: r') : Block.opens? line = Block.opens? line' := by
  have hm : Lacks "#+begin_".toList ':' := by decide
  have hw (t r : Text) : (t ++ ':' :: r).takeWhile isWord = t.takeWhile isWord := by
    have hc : isWord ':' = false := by decide
    rw [List.takeWhile_append, List.takeWhile_cons_of_neg (by simp [hc])]
    split
    case isTrue he => rw [List.append_nil, ((List.takeWhile_prefix _).eq_of_length he)]
    case isFalse   => rfl
  simp only [Block.opens?, h, h', afterFold?_append_cons hm]
  cases afterFold? "#+begin_".toList s
  case none   => rfl
  case some t => simp only [Option.map_some, bind, Option.bind_some, hw]

theorem isMark_eq {w name r : Text} (hw : Lacks w ':') (h : trimStart line = ':' :: name ++ ':' :: r)
    (hn : IsName name) :
    isMark (':' :: w ++ [':']) line = (afterFold? w name = some [] && isAllBlank r) := by
  have hc : ∀ x ∈ name, agree ':' x = false := by
    intro x hx
    by_contra ha
    exact (hn.right x hx).right (eq_colon_of_agree (by simpa using ha))
  have hf : afterFold? (':' :: w ++ [':']) (':' :: name ++ ':' :: r) = _ :=
    (if_pos (agree_refl ':')).trans (afterFold?_concat hw hc r)
  rw [isMark, h, hf]
  split
  case isTrue he  => rw [Option.any_some, decide_eq_true he, Bool.true_and]
  case isFalse he => rw [Option.any_none, decide_eq_false he, Bool.false_and]

theorem Drawer.closes_eq {name r : Text} (h : trimStart line = ':' :: name ++ ':' :: r)
    (hn : IsName name) :
    Drawer.closes line = (afterFold? "END".toList name = some [] && isAllBlank r) :=
  isMark_eq (w := "END".toList) (by decide) h hn

theorem Drawer.opens_eq {name r : Text} (h : trimStart line = ':' :: name ++ ':' :: r)
    (hn : IsName name) :
    Drawer.opens line = (afterFold? "PROPERTIES".toList name = some [] && isAllBlank r) :=
  isMark_eq (w := "PROPERTIES".toList) (by decide) h hn

-- A spelling of a fixed word is a name.
theorem IsName.of_agree {lit name : Text} (h : List.Forall₂ (fun a c => agree a c) lit name)
    (hl : lit ≠ []) (hb : ∀ n ∈ lit.map fold, n ∉ blankCodes) (hc : Lacks lit ':') : IsName name := by
  have hs := isSolid_of_forall₂_agree h hb
  refine ⟨fun hn => hl ?_, fun c hm => ⟨hs c hm, fun he => not_mem_of_lacks h hc (he ▸ hm)⟩⟩
  rw [hn] at h
  cases h
  rfl

-- Inside a drawer, the line that would open one is a property.
theorem Drawer.property?_of_opens (h : Drawer.opens line) : Drawer.property? line ≠ none := by
  rw [Drawer.opens, isMark, Option.any_eq_true] at h
  obtain ⟨r, hf, hr⟩ := h
  rw [show ":PROPERTIES:".toList = [':'] ++ ("PROPERTIES".toList ++ [':']) from rfl, afterFold?_bind,
    Option.bind_eq_some_iff] at hf
  obtain ⟨s, hs, hf⟩ := hf
  rw [afterFold?_bind, Option.bind_eq_some_iff] at hf
  obtain ⟨t, hn, ht⟩ := hf
  obtain ⟨name, rfl, ha⟩ := afterFold?_eq_some_iff.mp hn
  cases afterFold?_colon_eq_some ht
  have hi : IsName name := .of_agree ha (by decide) (by decide) (by decide)
  simp only [isAllBlank, List.all_eq_true] at hr
  have hp : field? [':'] line = some (name, trim r) := by
    refine field?_eq_some_iff.mpr ⟨r, afterFold?_colon_eq_some hs, hi, ?_, rfl⟩
    cases r
    case nil      => rfl
    case cons c r => exact hr c List.mem_cons_self
  rw [property?_eq_field?, hp]
  exact Option.some_ne_none _

end Lookalikes

end Transclusion
