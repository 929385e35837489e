import TreePlan.Proofs.Json.Spelling

/-! Whatever value is written, it is printable ASCII and so one line: texts are escaped, and numbers, those that
are not whole included, consist of digits, points, signs and letters. -/

namespace TreePlan

namespace Text

variable {s t : Text}

theorem Ascii.mono (h : t.Ascii) (hs : s ⊆ t) : s.Ascii := fun c hc => h c (hs hc)

theorem padded_ascii {width n : Nat} : (padded 10 width n).Ascii := by
  refine Ascii.append (fun c hc => ?_) fun c hc => ?_
  · rw [List.eq_of_mem_replicate hc]
    decide
  · obtain ⟨k, hk, rfl⟩ := mem_positional (by decide) hc
    have : ∀ k : Fin 10, 0x20 ≤ (digitChar k.val).val ∧ (digitChar k.val).val ≤ 0x7E := by decide
    exact this ⟨k, hk⟩

end Text

namespace Double

theorem zeros_ascii (n : Int) : (zeros n).Ascii := by
  intro c hc
  rw [List.eq_of_mem_replicate hc]
  decide

theorem layOut_ascii {digits : Text} (h : digits.Ascii) (lead : Int) : (layOut digits lead).Ascii := by
  have htake (n : Nat) : Text.Ascii (digits.take n) := h.mono (List.take_subset n digits)
  have hdrop (n : Nat) : Text.Ascii (digits.drop n) := h.mono (List.drop_subset n digits)
  have hpoint : Text.Ascii "." := by decide
  unfold layOut
  dsimp only
  split
  · split
    · exact (Text.Ascii.append (by decide) (zeros_ascii _)).append h
    split
    · exact (h.append (zeros_ascii _)).append (by decide)
    · exact ((htake _).append hpoint).append (hdrop _)
  · refine Text.Ascii.append (Text.Ascii.append ((htake _).append ?_) ?_) Text.padded_ascii
    · split
      · exact nofun
      · exact hpoint.append (hdrop _)
    · split <;> decide

theorem finiteText_ascii (x : Double) : x.finiteText.Ascii := by
  unfold finiteText
  split
  · decide
  · refine layOut_ascii ((Json.ofNat_ascii x.shortest.digits).mono ?_) _
    intro c hc
    unfold dropTrailingZeros at hc
    exact List.mem_reverse.1 ((List.dropWhile_suffix _).subset (List.mem_reverse.1 hc))

end Double

namespace Json

theorem printFloat_ascii (x : Double) : (printFloat x).Ascii := by
  unfold printFloat
  split
  · decide
  refine Text.Ascii.append ?_ ?_
  · split <;> decide
  · split
    · decide
    · exact x.finiteText_ascii

theorem ofInt_ascii (n : Int) : (Text.ofInt n).Ascii := by
  cases n with
  | ofNat n => exact ofNat_ascii n
  | negSucc n => exact Text.Ascii.append (s := "-") (by decide) (ofNat_ascii (n + 1))

theorem bracket_ascii {s t body : Text} (hs : s.Ascii) (hbody : body.Ascii) (ht : t.Ascii) : (s ++ body ++ t).Ascii :=
  (hs.append hbody).append ht

mutual

theorem print_ascii : ∀ v : Value, (print v).Ascii
  | .null => by decide
  | .bool b => by cases b <;> decide
  | .int n => ofInt_ascii n
  | .float x => printFloat_ascii x
  | .text t => printText_ascii t
  | .bytes _ => (by decide : (print .null).Ascii)
  | .moment _ => (by decide : (print .null).Ascii)
  | .list items => bracket_ascii (by decide) (unlines_ascii (printItems_ascii items)) (by decide)
  | .tuple items => bracket_ascii (by decide) (unlines_ascii (printItems_ascii items)) (by decide)
  | .map fields => by
    refine bracket_ascii (by decide) (unlines_ascii (List.forall_mem_map.2 fun p hp => ?_)) (by decide)
    have hvalue := printFields_ascii fields p (List.mem_mergeSort.1 hp)
    exact bracket_ascii (printText_ascii p.1) (by decide) hvalue

theorem printItems_ascii : ∀ vs : List Value, ∀ t ∈ printItems vs, t.Ascii
  | [] => nofun
  | v :: vs => List.forall_mem_cons.2 ⟨print_ascii v, printItems_ascii vs⟩

theorem printFields_ascii : ∀ fields : List (Text × Value), ∀ p ∈ printFields fields, p.2.Ascii
  | [] => nofun
  | (_, v) :: fields => List.forall_mem_cons.2 ⟨print_ascii v, printFields_ascii fields⟩

end

end Json

end TreePlan
