import HeadUnitLink.Proofs.Session.Acknowledgement
import HeadUnitLink.Proofs.Text.Replacement

/-!
# NULs behind a text

The head unit pads the text of an acknowledgement with NULs.  They stand behind
any bytes at all, a character that was cut short among them.

* `Utf8.Replaced.append_replicate_zero` says that a NUL never goes on with what
  is before it, so that the same is replaced with and without the padding.
* `trimNuls_append_nuls` takes the padding off the text again, and
  `getLast?_trimNuls` says that no NUL is left behind.
-/

namespace HeadUnitLink

namespace Utf8

theorem scan_append_replicate_zero (bytes : Bytes) (count : Nat) :
    scan (bytes ++ List.replicate count 0) =
      scan bytes ++ List.replicate count (some (Char.ofNat 0)) := by
  cases count with
  | zero => rw [List.replicate_zero, List.append_nil, List.replicate_zero, List.append_nil]
  | succ count =>
    rw [List.replicate_succ, scan_append_of_lt bytes (by decide), ← List.replicate_succ,
      scan_replicate_zero]

/-- A NUL stands for itself, whatever is before it. -/
theorem Replaced.append_replicate_zero {bytes : Bytes} {parts : List (Option Char)}
    (h : Replaced bytes parts) (count : Nat) :
    Replaced (bytes ++ List.replicate count 0)
      (parts ++ List.replicate count (some (Char.ofNat 0))) := by
  rw [replaced_iff] at h ⊢
  rw [h, scan_append_replicate_zero]

/-- The replacement character stands once for each piece that is replaced. -/
theorem Replaced.decodeLossy_eq {bytes : Bytes} {parts : List (Option Char)}
    (h : Replaced bytes parts) :
    decodeLossy bytes = parts.map fun c => c.getD replacement := by
  rw [h.eq_scan]
  rfl

theorem decodeLossy_append_replicate_zero (bytes : Bytes) (count : Nat) :
    decodeLossy (bytes ++ List.replicate count 0) =
      decodeLossy bytes ++ List.replicate count (Char.ofNat 0) := by
  unfold decodeLossy
  rw [scan_append_replicate_zero, List.map_append, List.map_replicate]
  rfl

end Utf8

/-! ## The text without its padding -/

theorem getLast?_trimNuls (text : List Char) :
    (trimNuls text).getLast? ≠ some (Char.ofNat 0) := by
  unfold trimNuls
  rw [List.getLast?_reverse]
  intro hnul
  have hkept := List.head?_dropWhile_not (fun c => decide (c = Char.ofNat 0)) text.reverse
  rw [hnul] at hkept
  exact absurd hkept (by decide)

theorem exists_nuls_append_dropWhile (text : List Char) :
    ∃ count, text =
      List.replicate count (Char.ofNat 0) ++ text.dropWhile fun c => c = Char.ofNat 0 := by
  induction text with
  | nil => exact ⟨0, rfl⟩
  | cons c rest ih =>
    by_cases hc : c = Char.ofNat 0
    · obtain ⟨count, hrest⟩ := ih
      refine ⟨count + 1, ?_⟩
      rw [List.dropWhile_cons_of_pos (by simpa using hc), List.replicate_succ, List.cons_append,
        ← hrest, hc]
    · refine ⟨0, ?_⟩
      rw [List.dropWhile_cons_of_neg (by simpa using hc)]
      rfl

/-- Only NULs are taken off. -/
theorem exists_eq_trimNuls_append (text : List Char) :
    ∃ count, text = trimNuls text ++ List.replicate count (Char.ofNat 0) := by
  obtain ⟨count, hreverse⟩ := exists_nuls_append_dropWhile text.reverse
  refine ⟨count, ?_⟩
  calc text = text.reverse.reverse := (List.reverse_reverse text).symm
    _ = (text.reverse.dropWhile fun c => c = Char.ofNat 0).reverse ++
        (List.replicate count (Char.ofNat 0)).reverse := by
      rw [← List.reverse_append, ← hreverse]
    _ = trimNuls text ++ List.replicate count (Char.ofNat 0) := by
      rw [List.reverse_replicate]
      rfl

theorem trimNuls_append_nuls (text : List Char) (count : Nat) :
    trimNuls (text ++ List.replicate count (Char.ofNat 0)) = trimNuls text := by
  obtain ⟨nuls, htext⟩ := exists_eq_trimNuls_append text
  calc trimNuls (text ++ List.replicate count (Char.ofNat 0))
      = trimNuls (trimNuls text ++ List.replicate (nuls + count) (Char.ofNat 0)) := by
        rw [← List.replicate_append_replicate, ← List.append_assoc, ← htext]
    _ = trimNuls text := trimNuls_append_replicate (getLast?_trimNuls text) _

/-- NULs behind a payload change nothing in its text.  The same pieces are
replaced with and without them, each by one replacement character, the text never
ends with a NUL, and a text that does not end so is read back from its bytes. -/
theorem correlationText_padded (bytes : Bytes) (count : Nat) :
    correlationText (bytes ++ List.replicate count 0) = correlationText bytes ∧
    (correlationText bytes).toList.getLast? ≠ some (Char.ofNat 0) ∧
    (∀ text : String, text.toList.getLast? ≠ some (Char.ofNat 0) →
      correlationText (text.toUTF8.toList ++ List.replicate count 0) = text) ∧
    ∃ parts, Utf8.Replaced bytes parts ∧
      Utf8.Replaced (bytes ++ List.replicate count 0)
        (parts ++ List.replicate count (some (Char.ofNat 0))) ∧
      (correlationText bytes).toList =
        trimNuls (parts.map fun c => c.getD Utf8.replacement) := by
  have hreplaced := Utf8.replaced_scan bytes
  refine ⟨?_, ?_, fun text htext => correlationText_toUTF8 htext count, Utf8.scan bytes, hreplaced,
    hreplaced.append_replicate_zero count, ?_⟩
  · unfold correlationText
    rw [Utf8.decodeLossy_append_replicate_zero, trimNuls_append_nuls]
  · unfold correlationText
    rw [String.toList_ofList]
    exact getLast?_trimNuls _
  · unfold correlationText
    rw [String.toList_ofList, hreplaced.decodeLossy_eq]

/-- A character of three bytes that was cut short after two. -/
example : correlationText [0x41, 0xE2, 0x82, 0, 0] = "A\uFFFD" := by cbv

end HeadUnitLink
