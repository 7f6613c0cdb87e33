import Reckoner.Proofs.RestoredLayout

/-!
# Excerpts with a caret

A line that cannot be read is shown around the place of its fault: at most ten characters before it
and ten from it on, with dots for what is left out on either side (`excerpt_eq`). The place is one
of the line's characters (`index_lt_of_scan`), and the caret stands in the column of that character
(`snippet_column`).

The characters are shown as they are, between the lines of the tag and of the caret
(`lines_excerpt`). A newline among them breaks the excerpt, so a message has its three lines exactly
if none is shown.
-/

namespace Reckoner

namespace Text

/-- A text with a newline has more than one line. -/
theorem one_lt_length_lines {a : String} (h : '\n' ∈ a.toList) : 1 < (lines a).length := by
  obtain ⟨front, back, ha⟩ := List.append_of_mem h
  have hpos (cs : List Char) : 0 < (cs.splitOn '\n').length :=
    List.length_pos_iff.mpr (List.splitOn_ne_nil _ _)
  have hfront := hpos front
  have hback := hpos back
  rw [lines, ha, List.splitOn_append_cons_self, List.length_map, List.length_append]
  omega

end Text

theorem ScanFault.newline_not_mem_message : ∀ fault : ScanFault, '\n' ∉ fault.message.toList
  | .invalidNumber lexeme =>
    Text.newline_not_mem_append (by simp) (Text.newline_not_mem_quoted lexeme)
  | .unexpectedCharacter c =>
    Text.newline_not_mem_append (by simp) (Text.newline_not_mem_quoted (String.singleton c))

theorem Token.Misfit.ne_nil {cs : List Char} {fault : ScanFault} (h : Token.Misfit cs fault) :
    cs ≠ [] := by
  cases h <;> simp

/-- A fault is laid at a character of the line. -/
theorem index_lt_of_scan {line : String} {e : ScanError} (h : Token.scan line = .error e) :
    e.index < line.length := by
  obtain ⟨-, tokens, rest, hs, hm⟩ := Token.scan_eq_error_iff.mp h
  have hlength := hs.length_eq
  have hpos := List.length_pos_iff.mpr hm.ne_nil
  rw [String.length_toList] at hlength
  omega

namespace ScanError

/-- The characters of the line from `first` up to `stop`. -/
def window (line : String) (first stop : Nat) : List Char := (line.toList.take stop).drop first

/-- A window with dots before it if it does not begin with the line, and after it if it does not
reach its end. -/
def snippet (line : String) (first stop : Nat) : String :=
  (if first = 0 then "" else "...") ++ String.ofList (window line first stop)
    ++ (if stop = line.length then "" else "...")

/-- Spaces, and a caret in the given column. -/
def caret (column : Nat) : String := String.ofList (List.replicate column ' ') ++ "^"

theorem excerpt_eq (heading : String) {line : String} {index first stop : Nat}
    (hfirst : first = index - 10) (hstop : stop = min line.length (index + 10)) :
    excerpt heading line index
      = "[Tokenizer error] " ++ heading ++ "\n" ++ snippet line first stop ++ "\n"
        ++ caret (index - first + if first = 0 then 0 else 3) := by
  have hnat : ((index : Int) - 10).toNat = first := by omega
  have hlast : min (line.length : Int) (index + 10) = (stop : Int) := by omega
  have hafter : (stop : Int) < line.length ↔ ¬ stop = line.length := by omega
  have hindent : ((index : Int) - first + ((if first = 0 then "" else "...").length : Nat)).toNat
      = index - first + if first = 0 then 0 else 3 := by
    split
    · change ((index : Int) - first + (0 : Nat)).toNat = _
      omega
    · change ((index : Int) - first + (3 : Nat)).toNat = _
      omega
  unfold excerpt
  simp only [hnat, hlast, if_neg (Int.not_ofNat_neg stop), Int.toNat_natCast, hafter, ite_not,
    Nat.pos_iff_ne_zero, ne_eq, hindent]
  simp only [snippet, window, caret, String.append_assoc]

/-- The column of a character of the line is shifted by the dots before the window. -/
theorem snippet_column {line : String} {index first stop : Nat} (hfirst : first ≤ index)
    (hstop : index < stop) (hlength : index < line.length) :
    (snippet line first stop).toList[index - first + if first = 0 then 0 else 3]?
      = line.toList[index]? := by
  have hwindow : (window line first stop)[index - first]? = line.toList[index]? := by
    rw [window, List.getElem?_drop, Nat.add_sub_cancel' hfirst, List.getElem?_take_of_lt hstop]
  have hinside : index - first < (window line first stop).length := by
    rw [window, List.length_drop, List.length_take, String.length_toList]
    omega
  have hdots : (if first = 0 then "" else "...").toList.length = if first = 0 then 0 else 3 := by
    split <;> rfl
  rw [snippet, String.toList_append, String.toList_append, String.toList_ofList, List.append_assoc,
    List.getElem?_append_right (by omega), hdots, Nat.add_sub_cancel,
    List.getElem?_append_left hinside, hwindow]

theorem newline_mem_snippet {line : String} {first stop : Nat} :
    '\n' ∈ (snippet line first stop).toList ↔ '\n' ∈ window line first stop := by
  rw [snippet, String.toList_append, String.toList_append, String.toList_ofList]
  split <;> split <;> simp

/-- The tag and the caret stand on lines of their own, whatever is shown between them. -/
theorem lines_excerpt {heading snippet caret : String} (hheading : '\n' ∉ heading.toList)
    (hcaret : '\n' ∉ caret.toList) :
    Text.lines ("[Tokenizer error] " ++ heading ++ "\n" ++ snippet ++ "\n" ++ caret)
      = ("[Tokenizer error] " ++ heading) :: (Text.lines snippet ++ [caret]) := by
  exact Text.lines_between (Text.newline_not_mem_append (by simp) hheading) hcaret snippet

/-- The message about a line that cannot be read shows a window of at most twenty characters with
the one at fault in it, dots where it leaves something out, and a caret in the column of the
character at fault. It has three lines, the tag, the window and the caret, exactly if no newline is
shown. -/
theorem message_points_at_fault {line : String} {e : ScanError}
    (h : Token.scan line = .error e) :
    let first := e.index - 10
    let stop := min line.length (e.index + 10)
    let column := e.index - first + if first = 0 then 0 else 3
    first ≤ e.index ∧ e.index < stop ∧ stop ≤ line.length ∧ stop ≤ first + 20
    ∧ e.message = "[Tokenizer error] " ++ e.fault.message ++ "\n" ++ snippet line first stop
        ++ "\n" ++ caret column
    ∧ (snippet line first stop).toList[column]? = line.toList[e.index]?
    ∧ ('\n' ∉ window line first stop → Text.lines e.message
        = ["[Tokenizer error] " ++ e.fault.message, snippet line first stop, caret column])
    ∧ ('\n' ∈ window line first stop → 3 < (Text.lines e.message).length) := by
  intro first stop column
  have hindex := index_lt_of_scan h
  obtain ⟨hline, -⟩ := Token.scan_eq_error_iff.mp h
  have hin : first ≤ e.index ∧ e.index < stop ∧ stop ≤ line.length ∧ stop ≤ first + 20 := by
    simp only [first, stop]
    omega
  have hmessage : e.message = "[Tokenizer error] " ++ e.fault.message ++ "\n"
      ++ snippet line first stop ++ "\n" ++ caret column := by
    rw [message, hline]
    exact excerpt_eq e.fault.message rfl rfl
  have hlines : Text.lines e.message = ("[Tokenizer error] " ++ e.fault.message)
      :: (Text.lines (snippet line first stop) ++ [caret column]) := by
    rw [hmessage]
    exact lines_excerpt e.fault.newline_not_mem_message (by simp [caret])
  refine ⟨hin.1, hin.2.1, hin.2.2.1, hin.2.2.2, hmessage,
    snippet_column hin.1 hin.2.1 hindex, fun hno => ?_, fun hnewline => ?_⟩
  · rw [hlines, Text.lines_of_no_newline (mt newline_mem_snippet.mp hno)]
    rfl
  · have hmore := Text.one_lt_length_lines (newline_mem_snippet.mpr hnewline)
    rw [hlines, List.length_cons, List.length_append, List.length_singleton]
    omega

theorem misfit_dollar (rest : List Char) :
    Token.Misfit ('$' :: rest) (.unexpectedCharacter '$') :=
  .character rfl rfl (by simp [Token.symbols]) (by decide)

theorem message_dollar :
    "[Tokenizer error] " ++ (ScanFault.unexpectedCharacter '$').message
      = "[Tokenizer error] Unexpected character: '$'" := by
  decide +kernel

/-- The window leaves out two letters before the sign that does not fit, and two behind it. -/
theorem message_points_at_fault_dots :
    let line := "abcdefghijkl$mnopqrstuvw"
    let e : ScanError := ⟨.unexpectedCharacter '$', line, 12⟩
    Token.scan line = .error e ∧ '\n' ∉ window line 2 22
      ∧ Text.lines e.message
        = ["[Tokenizer error] Unexpected character: '$'", "...cdefghijkl$mnopqrstu...",
          "             ^"] := by
  intro line e
  have hname : Token.Chunk (some .identifier) "abcdefghijkl".toList ('$' :: "mnopqrstuvw".toList) :=
    .name rfl ⟨List.all_eq_true.mp rfl, by rintro c ⟨⟩; rfl⟩
  have hline : line.toList = "abcdefghijkl".toList ++ '$' :: "mnopqrstuvw".toList := by decide
  have hsplits := Token.Splits.chunk (i := 0) hname (.done 12 _)
  rw [← hline] at hsplits
  have hscan : Token.scan line = .error e :=
    Token.scan_eq_error_iff.mpr ⟨rfl, _, _, hsplits, misfit_dollar _⟩
  have hno : '\n' ∉ window line 2 22 := by decide
  have hfirst : e.index - 10 = 2 := rfl
  have hstop : min line.length (e.index + 10) = 22 := by decide
  have hsnippet : snippet line 2 22 = "...cdefghijkl$mnopqrstu..." := by decide
  have hcaret : caret (e.index - 2 + if 2 = 0 then 0 else 3) = "             ^" := by decide
  obtain ⟨-, -, -, -, -, -, hlines, -⟩ := message_points_at_fault hscan
  rw [hfirst, hstop, hsnippet, hcaret, message_dollar] at hlines
  exact ⟨hscan, hno, hlines hno⟩

/-- A newline before the sign that does not fit breaks the window: the message has four lines, and
the caret is not below the sign. -/
theorem message_newline_four_lines :
    let e : ScanError := ⟨.unexpectedCharacter '$', "1\n$", 2⟩
    Token.scan "1\n$" = .error e
      ∧ Text.lines e.message
        = ["[Tokenizer error] Unexpected character: '$'", "1", "$", "  ^"] := by
  intro e
  have hnumber : Token.Chunk (some .number) ['1'] ['\n', '$'] :=
    .number rfl ⟨by simp, by rintro c ⟨⟩; rfl⟩ (by decide)
  have hnewline : Token.Chunk none ['\n'] ['$'] := .separator (by decide)
  have hscan : Token.scan "1\n$" = .error e :=
    Token.scan_eq_error_iff.mpr
      ⟨rfl, _, _, .chunk hnumber (.chunk hnewline (.done _ _)), misfit_dollar []⟩
  have hmessage : e.message
      = "[Tokenizer error] " ++ e.fault.message ++ "\n" ++ snippet "1\n$" 0 3 ++ "\n" ++ caret 2 :=
    excerpt_eq e.fault.message rfl (by decide)
  have hsnippet : snippet "1\n$" 0 3 = "1" ++ "\n" ++ "$" := by decide
  refine ⟨hscan, ?_⟩
  rw [hmessage, lines_excerpt e.fault.newline_not_mem_message (by decide), hsnippet,
    Text.lines_append, Text.lines_of_no_newline (by decide), Text.lines_of_no_newline (by decide),
    message_dollar]
  rfl

end ScanError

end Reckoner
