import Transclusion.Directive
import Transclusion.Proofs.Json.Strings

namespace Transclusion.Directive

open Text

theorem Identity.text_eq (i : Identity) :
    i.text =
      '[' :: (i.link.scheme.elim "null".toList Json.quote ++ (", ".toList ++
        (Json.quote i.link.body ++ (", ".toList ++
          (i.link.extra.elim "null".toList Json.quote ++ (", ".toList ++
            (Json.literal i.noFirstHeading ++ (", ".toList ++
              (Json.literal i.onlyContents ++ (", ".toList ++
                (i.level.elim "null".toList Text.ofInt ++ [']']))))))))))) := by
  obtain ⟨⟨_ | _, _, _ | _⟩, _, _, _ | _⟩ := i <;>
    simp [text, json, Json.inline, Json.inlineItems, Json.ofOption, Json.ofInt,
      List.intercalate_cons_cons]

example :
    (identity { link := { body := "é".toList, extra := some [] }, level := some (-2) }).text =
      "[null, \"\\u00e9\", \"\", false, false, -2]".toList := by
  decide +kernel

-- No number starts as the word for a missing one.
theorem levelText_injective :
    Function.Injective fun n : Option Int => n.elim "null".toList Text.ofInt := by
  have hn (n : Int) : Text.ofInt n ≠ "null".toList := by
    obtain ⟨c, s, hs, hc⟩ := Text.exists_ofInt_eq_cons n
    rw [hs]
    rintro ⟨⟩
    rcases hc with hc | hc <;> cases hc
  rintro (_ | m) (_ | n) h
  · rfl
  · exact (hn n h.symm).elim
  · exact (hn m h).elim
  · exact congrArg some (Text.ofInt_injective h)

theorem Identity.text_injective : Function.Injective Identity.text := by
  intro i j h
  have hq := Json.selfDelimiting_quote.option Json.quote_ne_null
  rw [text_eq, text_eq] at h
  obtain ⟨hs, h⟩ := hq (List.cons.inj h).right
  obtain ⟨hb, h⟩ := Json.selfDelimiting_quote (List.append_cancel_left h)
  obtain ⟨he, h⟩ := hq (List.append_cancel_left h)
  obtain ⟨hn, h⟩ := Json.selfDelimiting_literal (List.append_cancel_left h)
  obtain ⟨ho, h⟩ := Json.selfDelimiting_literal (List.append_cancel_left h)
  have hl := levelText_injective (List.append_cancel_right (List.append_cancel_left h))
  calc
    i = ⟨⟨i.link.scheme, i.link.body, i.link.extra⟩, i.noFirstHeading, i.onlyContents, i.level⟩ := rfl
    _ = j := by rw [hs, hb, he, hn, ho, hl]

-- What is missing, what is empty and what is written are three things. Neither the description nor
-- what is excluded shows.
theorem identity_text_eq_iff (d d' : Directive) :
    d.identity.text = d'.identity.text ↔
      d.link.scheme = d'.link.scheme ∧ d.link.body = d'.link.body ∧ d.link.extra = d'.link.extra ∧
        d.noFirstHeading = d'.noFirstHeading ∧ d.onlyContents = d'.onlyContents ∧
          d.level = d'.level := by
  constructor
  case mp =>
    intro h
    have hi := Identity.text_injective h
    have hl : d.link = d'.link := congrArg (·.link) hi
    exact ⟨congrArg _ hl, congrArg _ hl, congrArg _ hl, congrArg (·.noFirstHeading) hi,
      congrArg (·.onlyContents) hi, congrArg (·.level) hi⟩
  case mpr =>
    rintro ⟨hs, hb, he, hn, ho, hl⟩
    rw [Identity.text_eq, Identity.text_eq]
    simp only [identity, hs, hb, he, hn, ho, hl]

end Transclusion.Directive
