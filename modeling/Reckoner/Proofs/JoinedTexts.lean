import Reckoner.Proofs.Chunks

/-!
# Texts joined by a separator

No name and no number goes on across a separator, so a separator and any text after it leave the
chunks before them as they are, and a misfit before them too (`Splits.before_separator`). Where a
text starts does not matter to its chunks, only to the positions of their tokens (`Splits.shift`).
So two texts with a separator between them are read one after the other, and the first fault of
either is the fault of both.
-/

namespace Reckoner.Token

/-- The token as it is when `count` more characters stand before it. -/
def shift (count : Nat) (t : Token) : Token := { t with position := t.position + count }

theorem MaximalRun.append {p : Char → Bool} {run cs : List Char} {w : Char}
    (h : MaximalRun p run cs) (hp : p w = false) (after : List Char) :
    MaximalRun p run (cs ++ w :: after) := by
  refine ⟨h.1, fun c hc => ?_⟩
  rcases cs with _ | ⟨d, cs⟩
  · simp only [List.nil_append, List.head?_cons, Option.mem_def, Option.some.injEq] at hc
    rwa [← hc]
  · exact h.2 c hc

section Separator

variable {w : Char} (hw : w ∈ separators) (after : List Char)
include hw

theorem not_continuing_of_separator : w.isAlphanum = false ∧ isNumberChar w = false := by
  simp only [separators, List.mem_cons, List.not_mem_nil, or_false] at hw
  rcases hw with rfl | rfl | rfl | rfl | rfl <;> exact ⟨rfl, rfl⟩

theorem Chunk.before_separator {kind? : Option TokenKind} {chunk cs : List Char}
    (h : Chunk kind? chunk cs) : Chunk kind? chunk (cs ++ w :: after) := by
  obtain ⟨hletter, hdigit⟩ := not_continuing_of_separator hw
  cases h with
  | separator hc => exact .separator hc
  | symbol hc => exact .symbol hc
  | name hc hrun => exact .name hc (hrun.append hletter after)
  | number hc hrun hp => exact .number hc (hrun.append hdigit after) hp

theorem Misfit.before_separator {cs : List Char} {fault : ScanFault} (h : Misfit cs fault) :
    Misfit (cs ++ w :: after) fault := by
  obtain ⟨-, hdigit⟩ := not_continuing_of_separator hw
  cases h with
  | number hc hrun hp =>
    rw [List.append_assoc]
    exact .number hc (hrun.append hdigit after) hp
  | character hd ha hk hs => exact .character hd ha hk hs

theorem Splits.before_separator {i j : Nat} {cs rest : List Char} {ts : List Token}
    (h : Splits i cs ts j rest) : Splits i (cs ++ w :: after) ts j (rest ++ w :: after) := by
  induction h with
  | done i cs => exact .done i _
  | chunk hc _ ih =>
    rw [List.append_assoc]
    exact .chunk (hc.before_separator hw after) ih

end Separator

theorem ofChunk_add (i count : Nat) (chunk : List Char) (kind? : Option TokenKind) :
    ofChunk (i + count) chunk kind? = (ofChunk i chunk kind?).map (shift count) := by
  rcases kind? with _ | kind <;> simp [ofChunk, shift]

theorem Splits.shift {i j : Nat} {cs rest : List Char} {ts : List Token}
    (h : Splits i cs ts j rest) (count : Nat) :
    Splits (i + count) cs (ts.map (Token.shift count)) (j + count) rest := by
  induction h with
  | done i cs => exact .done _ cs
  | chunk hc _ ih =>
    rw [List.map_append, ← ofChunk_add]
    refine .chunk hc ?_
    rwa [Nat.add_right_comm]

theorem Splits.trans {i j k : Nat} {cs mid rest : List Char} {ts us : List Token}
    (h : Splits i cs ts j mid) (h' : Splits j mid us k rest) : Splits i cs (ts ++ us) k rest := by
  induction h with
  | done => exact h'
  | chunk hc _ ih =>
    rw [List.append_assoc]
    exact .chunk hc (ih h')

section Joined

variable {a b : String} {w : Char} {ts us : List Token} {j : Nat} {rest : List Char}

theorem toList_joined (a b : String) (w : Char) :
    (a ++ String.singleton w ++ b).toList = a.toList ++ w :: b.toList := by
  simp

/-- Past a text that splits to its end, the chunks of the second text follow. -/
theorem Splits.joined (hw : w ∈ separators) (ha : Splits 0 a.toList ts a.length [])
    (hb : Splits 0 b.toList us j rest) :
    Splits 0 (a ++ String.singleton w ++ b).toList (ts ++ us.map (Token.shift (a.length + 1)))
      (j + (a.length + 1)) rest := by
  have hbefore := ha.before_separator hw b.toList
  have hafter := hb.shift (a.length + 1)
  rw [Nat.zero_add] at hafter
  have hspace : Chunk none [w] b.toList := .separator hw
  rw [toList_joined]
  exact hbefore.trans (.chunk hspace hafter)

/-- Two texts with a separator between them are read one after the other: the tokens of the second
follow those of the first at positions past it and the separator. If the first text cannot be read,
the whole has its fault at its place, whatever follows. If only the second cannot, the whole has
the fault of the second, that much further on. -/
theorem scan_separated (a b : String) (hw : w ∈ separators) :
    let line := a ++ String.singleton w ++ b
    (∀ ts us, scan a = .ok ts → scan b = .ok us →
      scan line = .ok (ts ++ us.map (shift (a.length + 1))))
    ∧ (∀ e, scan a = .error e → scan line = .error ⟨e.fault, line, e.index⟩)
    ∧ ∀ ts e, scan a = .ok ts → scan b = .error e →
      scan line = .error ⟨e.fault, line, e.index + (a.length + 1)⟩ := by
  intro line
  refine ⟨fun ts us ha hb => ?_, fun e ha => ?_, fun ts e ha hb => ?_⟩
  · have hlength : line.length = b.length + (a.length + 1) := by
      simp only [line, String.length_append, String.length_singleton]
      omega
    rw [scan_eq_ok_iff, hlength]
    exact (scan_eq_ok_iff.mp ha).joined hw (scan_eq_ok_iff.mp hb)
  · obtain ⟨-, ts, rest, hs, hm⟩ := scan_eq_error_iff.mp ha
    refine scan_eq_error_iff.mpr ⟨rfl, ts, rest ++ w :: b.toList, ?_, ?_⟩
    · rw [toList_joined]
      exact hs.before_separator hw b.toList
    · exact hm.before_separator hw b.toList
  · obtain ⟨-, us, rest, hs, hm⟩ := scan_eq_error_iff.mp hb
    exact scan_eq_error_iff.mpr ⟨rfl, _, rest, (scan_eq_ok_iff.mp ha).joined hw hs, hm⟩

/-- The point of `1.` ends with the tab, so the one of `.5` is a fault of its own. -/
theorem scan_separated_points :
    let one : Token := ⟨.number, "1.", 0, some .one⟩
    '\t' ∈ separators ∧ scan "1." = .ok [one]
      ∧ scan ".5" = .error ⟨.unexpectedCharacter '.', ".5", 0⟩
      ∧ scan "1.\t1." = .ok [one, one.shift 3]
      ∧ scan "1.\t.5" = .error ⟨.unexpectedCharacter '.', "1.\t.5", 3⟩
      ∧ scan ".5\t1." = .error ⟨.unexpectedCharacter '.', ".5\t1.", 0⟩ := by
  intro one
  have hw : '\t' ∈ separators := by decide
  have hplain : Plain ['1', '.'] :=
    @Plain.fraction ['1'] [] (by simp) (by simp [Digits]) (by simp [Digits])
  have hvalue : (Decimal.ofPlain ['1', '.']).nearest false = .one := by decide +kernel
  have hnumber : Chunk (some .number) ['1', '.'] [] :=
    .number rfl ⟨List.all_eq_true.mp rfl, by simp⟩ (by decide)
  have hone : scan "1." = .ok [one] := by
    have hsplits : Splits 0 ['1', '.'] (ofChunk 0 ['1', '.'] (some .number) ++ []) 2 [] :=
      .chunk hnumber (.done 2 [])
    rw [ofChunk_number 0 hplain, hvalue] at hsplits
    exact scan_eq_ok_iff.mpr hsplits
  have hpoint : scan ".5" = .error ⟨.unexpectedCharacter '.', ".5", 0⟩ :=
    scan_eq_error_iff.mpr ⟨rfl, [], ['.', '5'], .done 0 _,
      .character rfl rfl (by simp [symbols]) (by decide)⟩
  obtain ⟨hboth, -, -⟩ := scan_separated "1." "1." hw
  obtain ⟨-, -, hsecond⟩ := scan_separated "1." ".5" hw
  obtain ⟨-, hfirst, -⟩ := scan_separated ".5" "1." hw
  exact ⟨hw, hone, hpoint, hboth _ _ hone hone, hsecond _ _ hone hpoint, hfirst _ hpoint⟩

end Joined

end Reckoner.Token
