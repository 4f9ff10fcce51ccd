-- SUMMARY: Scalars are shown with digits that read back, and no two numbers alike.
import MachInspect.Proofs.Decimal.Shortest
import MachInspect.Proofs.Value.General

/-!
# Scalars in shortest digits

A `double`, or the `float` nearest to it, is shown by its shortest digits, laid out in the general
style. The layout keeps the number that the digits stand for, so that the text is read as the number
that was shown.
-/
namespace MachInspect.Value.Floating

open Decimal

/-- The format in which a scalar is shown. -/
def formatOf (single : Bool) : Format := if single then binary32 else binary64

variable {single negative : Bool} {n : Number} {m : ℕ} {e : ℤ}

theorem proper_formatOf (single : Bool) : (formatOf single).Proper := by
  cases single
  · exact Format.proper_binary64
  · exact Format.proper_binary32

theorem precision_formatOf_le (single : Bool) : (formatOf single).precision ≤ 53 := by
  cases single <;> decide

theorem canonical_of_convert (h : (formatOf single).convert n = .finite negative m e) :
    (formatOf single).Canonical m e := by
  cases n with
  | nan => cases h
  | infinite _ => cases h
  | finite _ _ _ => exact (Format.canonical_of_round (proper_formatOf single) h).2

theorem toList_shortest (h : (formatOf single).convert n = .finite negative m e) :
    (shortest single n).toList =
      let s := Shortest.digits (formatOf single) m e
      sign negative ++ if isPositional s.exponent then s.positional else s.exponential := by
  have hshortest :
      shortest single n = shortestIn (formatOf single) ((formatOf single).convert n) := by
    cases n with
    | nan => cases h
    | infinite _ => cases h
    | finite _ _ _ => rfl
  rw [hshortest, h, shortestIn, toList_signText_append]

/-- The text shows the number that its digits stand for. -/
theorem shows_shortest (h : (formatOf single).convert n = .finite negative m e) :
    Shows (shortest single n).toList negative (Shortest.digits (formatOf single) m e).value := by
  obtain ⟨hnormal, -⟩ := Shortest.digits_reads (proper_formatOf single)
    (precision_formatOf_le single) (canonical_of_convert h)
  rw [toList_shortest h]
  exact hnormal.shows negative

/-- A text belongs to one number only. -/
theorem convert_eq_of_shortest_eq {n' : Number} {negative' : Bool} {m' : ℕ} {e' : ℤ}
    (h : (formatOf single).convert n = .finite negative m e)
    (h' : (formatOf single).convert n' = .finite negative' m' e')
    (htext : shortest single n' = shortest single n) :
    negative' = negative ∧ m' = m ∧ e' = e := by
  have hdenotes := (shows_shortest h).denotes
  rw [← htext, (shows_shortest h').denotes] at hdenotes
  obtain ⟨hnegative, hvalue⟩ := Prod.mk.inj (Option.some.inj hdenotes)
  obtain ⟨-, hreads⟩ := Shortest.digits_reads (proper_formatOf single)
    (precision_formatOf_le single) (canonical_of_convert h)
  obtain ⟨-, hreads'⟩ := Shortest.digits_reads (proper_formatOf single)
    (precision_formatOf_le single) (canonical_of_convert h')
  rw [hvalue] at hreads'
  exact ⟨hnegative, hreads'.unique (proper_formatOf single) hreads⟩

/-- In its own format a number is what its bits say. -/
theorem convert_decode_eq_iff {bits : ℕ} :
    binary64.convert (binary64.decode bits) = .finite negative m e ↔
      binary64.decode bits = .finite negative m e := by
  cases hdecode : binary64.decode bits with
  | nan => exact Iff.rfl
  | infinite _ => exact Iff.rfl
  | finite sign mantissa exponent =>
    have hcanonical := Format.canonical_of_decode Format.proper_binary64 hdecode
    rw [Format.convert, hcanonical.round_eq Format.proper_binary64]

theorem bits_eq_of_decode {bits bits' : UInt64}
    (h : binary64.decode bits.toNat = .finite negative m e)
    (h' : binary64.decode bits'.toNat = .finite negative m e) : bits = bits' := by
  have hlt (b : UInt64) :
      b.toNat < 2 * (2 ^ binary64.exponentBits * 2 ^ (binary64.precision - 1)) := b.toNat_lt
  exact UInt64.toNat_inj.1
    ((Format.eq_of_decode (hlt bits) h).trans (Format.eq_of_decode (hlt bits') h').symm)

/-- The text of a finite number denotes what its digits with a plain exponent denote, with the same
sign, and is in the general style for the exponent written there. It is read as the number that is
shown, and no other number of the format has this text: among doubles, no other bits. -/
theorem shortest_text_reads_back (single : Bool) (bits : UInt64) {negative : Bool} {m : ℕ} {e : ℤ}
    (hbits : (formatOf single).convert (binary64.decode bits.toNat) = .finite negative m e) :
    ∃ r, denotes? (sign negative ++ (Shortest.digits (formatOf single) m e).plain) =
        some (negative, r) ∧
      Int.log 10 r = (Shortest.digits (formatOf single) m e).exponent ∧
      Shows (shortest single (binary64.decode bits.toNat)).toList negative r ∧
      (formatOf single).Reads r m e ∧
      ∀ (bits' : UInt64) (negative' : Bool) (m' : ℕ) (e' : ℤ),
        (formatOf single).convert (binary64.decode bits'.toNat) = .finite negative' m' e' →
        shortest single (binary64.decode bits'.toNat) =
          shortest single (binary64.decode bits.toNat) →
        (negative', m', e') = (negative, m, e) ∧ (single = false → bits' = bits) := by
  obtain ⟨hnormal, hreads⟩ := Shortest.digits_reads (proper_formatOf single)
    (precision_formatOf_le single) (canonical_of_convert hbits)
  refine ⟨_, hnormal.denotes?_plain negative, hnormal.log_value, shows_shortest hbits, hreads,
    fun bits' negative' m' e' hbits' htext => ?_⟩
  obtain ⟨rfl, rfl, rfl⟩ := convert_eq_of_shortest_eq hbits hbits' htext
  refine ⟨rfl, fun hdouble => ?_⟩
  subst hdouble
  exact bits_eq_of_decode (convert_decode_eq_iff.1 hbits') (convert_decode_eq_iff.1 hbits)

/-- The `float` nearest to -0.00001, just below the exponents that are written out. -/
theorem small_float_reads_back :
    shortest true (binary64.decode (0xbee4f8b588e368f1 : UInt64).toNat) = "-1e-05" ∧
      ∃ r, denotes? (sign true ++ (Shortest.digits binary32 10995116 (-40)).plain) =
          some (true, r) ∧
        Int.log 10 r = -5 ∧ Shows "-1e-05".toList true r ∧ binary32.Reads r 10995116 (-40) := by
  have hbits : (formatOf true).convert (binary64.decode (0xbee4f8b588e368f1 : UInt64).toNat) =
      .finite true 10995116 (-40) := by decide +kernel
  have htext : shortest true (binary64.decode (0xbee4f8b588e368f1 : UInt64).toNat) = "-1e-05" := by
    decide +kernel
  have hexponent : (Shortest.digits binary32 10995116 (-40)).exponent = -5 := by decide +kernel
  obtain ⟨r, hplain, hlog, hshows, hreads, -⟩ :=
    shortest_text_reads_back true 0xbee4f8b588e368f1 hbits
  exact ⟨htext, r, hplain, hlog.trans hexponent, htext ▸ hshows, hreads⟩

end MachInspect.Value.Floating
