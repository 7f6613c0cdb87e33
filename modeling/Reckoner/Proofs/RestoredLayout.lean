import Mathlib.Data.List.DropRight
import Reckoner.Proofs.Chunks
import Reckoner.Proofs.Safety

/-!
# Lines laid out again

The tokens of a line, laid out, give the line again with a space for each separator and nothing
behind the last token (`restore`). The layout follows the chunks of the line: a separator leaves a
space to be made up for later, and a token makes up for all of them, so that it comes to stand at
its own position (`layout_of_splits`). The same chunks are read from the restored text
(`scanFrom_restore`).

Neither the restored text nor any heading holds a newline, so a message about the tokens of a line
has three lines, with the caret below the position of the token at fault.
-/

namespace Reckoner

namespace Text

def lines (text : String) : List String := (text.toList.splitOn '\n').map String.ofList

theorem lines_append (a b : String) : lines (a ++ "\n" ++ b) = lines a ++ lines b := by
  have hsplit : (a ++ "\n" ++ b).toList = a.toList ++ '\n' :: b.toList := by simp
  rw [lines, hsplit, List.splitOn_append_cons_self, List.map_append]
  rfl

theorem lines_of_no_newline {a : String} (h : '\n' ∉ a.toList) : lines a = [a] := by
  simp [lines, List.splitOn_eq_singleton h]

/-- A first and a last line stay lines of their own, whatever is between them. -/
theorem lines_between {a c : String} (ha : '\n' ∉ a.toList) (hc : '\n' ∉ c.toList) (b : String) :
    lines (a ++ "\n" ++ b ++ "\n" ++ c) = a :: (lines b ++ [c]) := by
  rw [lines_append, lines_append, lines_of_no_newline ha, lines_of_no_newline hc]
  rfl

theorem newline_not_mem_toDigits (n : Nat) : '\n' ∉ Nat.toDigits 16 n := by
  induction n using Nat.strongRecOn with
  | ind n ih =>
    rw [Nat.toDigits_eq_if (by decide)]
    split
    · simp
    · simp [ih (n / 16) (by omega)]

theorem newline_not_mem_codeEscape (c : Char) : '\n' ∉ codeEscape c := by
  have hhex (width n : Nat) : '\n' ∉ hexDigits width n := by
    simp [hexDigits, newline_not_mem_toDigits]
  unfold codeEscape
  split
  · simp [hhex]
  · split <;> simp [hhex]

theorem newline_not_mem_escape {quote : Char} (hq : quote ≠ '\n') (c : Char) :
    '\n' ∉ escape quote c := by
  unfold escape
  split
  · rename_i h
    rcases h with rfl | rfl
    · simpa using hq.symm
    · decide
  · split
    · decide
    · rename_i hc
      split
      · decide
      · split
        · decide
        · split
          · simpa using Ne.symm hc
          · exact newline_not_mem_codeEscape c

/-- A quoted text stands on one line, whatever is quoted. -/
theorem newline_not_mem_quoted (text : String) : '\n' ∉ (quoted text).toList := by
  have hq : quoteFor text.toList ≠ '\n' := by
    unfold quoteFor
    split <;> decide
  simp only [quoted, String.toList_ofList, List.cons_append, List.mem_cons, List.mem_append,
    List.mem_flatMap, List.not_mem_nil, or_false, not_or, not_exists, not_and]
  exact ⟨hq.symm, fun c _ => newline_not_mem_escape hq c, hq.symm⟩

end Text

theorem Text.newline_not_mem_append {a b : String} (ha : '\n' ∉ a.toList) (hb : '\n' ∉ b.toList) :
    '\n' ∉ (a ++ b).toList := by
  rw [String.toList_append, List.mem_append, not_or]
  exact ⟨ha, hb⟩

theorem TokenKind.newline_not_mem_name (kind : TokenKind) : '\n' ∉ kind.name.toList := by
  cases kind <;> simp [name]

theorem ParseFault.newline_not_mem_heading : ∀ fault : ParseFault, '\n' ∉ fault.heading.toList
  | .endOfInput | .unclosedBracket | .notCallable | .tooDeep => by
    delta heading
    simp
  | .unexpectedOperator lexeme | .unreadableNumber lexeme =>
    Text.newline_not_mem_append (by simp) (Text.newline_not_mem_quoted lexeme)
  | .trailing kind => Text.newline_not_mem_append (by simp) kind.newline_not_mem_name

/-! ## The restored line -/

namespace Layout

/-- The characters with a space for each separator, and without the separators at their end. -/
def restore (cs : List Char) : List Char :=
  (cs.rdropWhile Token.isSpace).map fun c => if Token.isSpace c then ' ' else c

def restored (line : String) : String := String.ofList (restore line.toList)

theorem restore_nil : restore [] = [] := rfl

theorem restore_separator {c : Char} (hc : Token.isSpace c = true) (cs : List Char) :
    restore (c :: cs) = if restore cs = [] then [] else ' ' :: restore cs := by
  unfold restore List.rdropWhile
  rw [List.reverse_cons, List.dropWhile_append]
  rcases hd : cs.reverse.dropWhile Token.isSpace with _ | ⟨d, ds⟩
  · simp [hc]
  · simp [hc]

theorem restore_append {chunk : List Char} (hne : chunk ≠ [])
    (h : ∀ c ∈ chunk, Token.isSpace c = false) (cs : List Char) :
    restore (chunk ++ cs) = chunk ++ restore cs := by
  have hself : chunk.reverse.dropWhile Token.isSpace = chunk.reverse := by
    obtain ⟨c, rest, hr⟩ := List.exists_cons_of_ne_nil (List.reverse_ne_nil_iff.mpr hne)
    have hc : c ∈ chunk := List.mem_reverse.mp (by simp [hr])
    rw [hr, List.dropWhile_cons_of_neg (by simp [h c hc])]
  have hmap : chunk.map (fun c => if Token.isSpace c then ' ' else c) = chunk := by
    conv_rhs => rw [← List.map_id chunk]
    exact List.map_congr_left fun c hc => by simp [h c hc]
  unfold restore List.rdropWhile
  rw [List.reverse_append, List.dropWhile_append, hself]
  rcases hd : cs.reverse.dropWhile Token.isSpace with _ | ⟨d, ds⟩
  · simpa using hmap
  · simpa using hmap

/-- Spaces in front of two texts that are restored alike do not tell them apart. -/
theorem restore_spaces_congr {cs ds : List Char} (h : restore cs = restore ds) :
    ∀ n, restore (List.replicate n ' ' ++ cs) = restore (List.replicate n ' ' ++ ds)
  | 0 => h
  | n + 1 => by
    have ih := restore_spaces_congr h n
    rw [List.replicate_succ, List.cons_append, List.cons_append, restore_separator rfl,
      restore_separator rfl, ih]

theorem restore_spaces {cs : List Char} (h : restore cs ≠ []) :
    ∀ n, restore (List.replicate n ' ' ++ cs) = List.replicate n ' ' ++ restore cs
  | 0 => rfl
  | n + 1 => by
    have ih := restore_spaces h n
    rw [List.replicate_succ, List.cons_append, restore_separator rfl, ih, if_neg (by simp [h]),
      List.cons_append]

theorem restore_replicate : ∀ n, restore (List.replicate n ' ') = []
  | 0 => rfl
  | n + 1 => by rw [List.replicate_succ, restore_separator rfl, if_pos (restore_replicate n)]

theorem newline_not_mem_restore (cs : List Char) : '\n' ∉ restore cs := by
  intro h
  obtain ⟨c, -, hc⟩ := List.mem_map.mp h
  split at hc
  · cases hc
  · rename_i hspace
    subst hc
    exact hspace rfl

/-- What is restored starts with a space, or as it did before. -/
theorem head?_restore {c : Char} :
    ∀ {cs : List Char}, c ∈ (restore cs).head? → c = ' ' ∨ c ∈ cs.head?
  | [], h => by cases h
  | d :: ds, h => by
    by_cases hd : Token.isSpace d = true
    · rw [restore_separator hd] at h
      split at h
      · cases h
      · cases h
        exact Or.inl rfl
    · have happend := restore_append (List.cons_ne_nil d []) (by simpa using hd) ds
      rw [List.singleton_append, List.singleton_append] at happend
      rw [happend] at h
      exact Or.inr h

end Layout

namespace Token

open Layout

theorem Chunk.separator_inv {chunk cs : List Char} (h : Chunk none chunk cs) :
    ∃ c, chunk = [c] ∧ isSpace c = true := by
  cases h with
  | separator hc => exact ⟨_, rfl, isSpace_eq_true_iff.mpr hc⟩

/-- The text of a token is not empty and holds no separator. -/
theorem Chunk.no_separator {kind : TokenKind} {chunk cs : List Char}
    (h : Chunk (some kind) chunk cs) : chunk ≠ [] ∧ ∀ c ∈ chunk, isSpace c = false := by
  have hnot {c : Char} (hc : isSpace c = true) :
      c.isDigit = false ∧ c.isAlpha = false ∧ TokenKind.ofSymbol? c = none :=
    not_symbol_of_separator (isSpace_eq_true_iff.mp hc)
  refine ⟨by cases h <;> simp, fun c hc => Bool.eq_false_iff.mpr fun hspace => ?_⟩
  obtain ⟨hd, ha, hs⟩ := hnot hspace
  cases h with
  | @symbol d _ _ hk =>
    obtain rfl : c = d := by simpa using hc
    rw [ofSymbol?_eq_some_iff.mpr hk] at hs
    cases hs
  | @name d run _ hk hrun =>
    rcases List.mem_cons.mp hc with rfl | hc
    · rw [ha] at hk
      cases hk
    · have hc := hrun.1 c hc
      simp [Char.isAlphanum, ha, hd] at hc
  | @number d run _ hk hrun _ =>
    rcases List.mem_cons.mp hc with rfl | hc
    · rw [hd] at hk
      cases hk
    · have hc := hrun.1 c hc
      simp only [isNumberChar, hd, Bool.false_or, beq_iff_eq] at hc
      subst hc
      cases hspace

theorem MaximalRun.restore {p : Char → Bool} {run cs : List Char} (h : MaximalRun p run cs)
    (hp : p ' ' = false) : MaximalRun p run (restore cs) := by
  refine ⟨h.1, fun c hc => ?_⟩
  rcases head?_restore hc with rfl | hc
  · exact hp
  · exact h.2 c hc

theorem Chunk.restore {kind? : Option TokenKind} {chunk cs : List Char}
    (h : Chunk kind? chunk cs) : Chunk kind? chunk (restore cs) := by
  cases h with
  | separator hc => exact .separator hc
  | symbol hc => exact .symbol hc
  | name hc hrun => exact .name hc (hrun.restore rfl)
  | number hc hrun hp => exact .number hc (hrun.restore rfl) hp

/-- The restored text has the tokens of the text. -/
theorem scanFrom_restore {i j : Nat} {cs rest : List Char} {ts : List Token}
    (h : Splits i cs ts j rest) (hrest : rest = []) : scanFrom i (restore cs) = .ok ts := by
  induction h with
  | done i cs =>
    subst hrest
    rw [restore_nil, scanFrom]
  | @chunk i j kind? chunk cs rest ts hc hs ih =>
    have ih := ih hrest
    rcases kind? with _ | kind
    · obtain ⟨c, rfl, hspace⟩ := hc.separator_inv
      have ih : scanFrom (i + 1) (Layout.restore cs) = .ok ts := ih
      rw [List.singleton_append, restore_separator hspace]
      split
      · rename_i hnil
        rw [hnil, scanFrom] at ih
        rw [scanFrom]
        exact ih
      · have hblank : Chunk none [' '] (Layout.restore cs) := .separator (by decide)
        rw [← List.singleton_append, scanFrom_chunk i hblank, List.length_singleton, ih]
        rfl
    · obtain ⟨hne, hno⟩ := hc.no_separator
      rw [restore_append hne hno, scanFrom_chunk i hc.restore, ih]
      rfl

end Token

namespace Layout

theorem gap_of_le {length position : Nat} (h : length ≤ position) :
    gap length position = position - length := by
  unfold gap
  split
  · omega
  · rw [if_neg (by omega)]
    omega

/-- The layout of the tokens of a text, after a text that ends at or before its start. The spaces
between the two are made up for by the first token, so they stand in front of what is restored. -/
theorem layout_of_splits {i j : Nat} {cs rest : List Char} {ts : List Token}
    (h : Token.Splits i cs ts j rest) (hrest : rest = []) :
    ∀ length ≤ i,
      (String.join (piecesFrom length ts)).toList
          = restore (List.replicate (i - length) ' ' ++ cs)
        ∧ (offsetsFrom length ts).map Int.ofNat = ts.map (·.position) := by
  induction h with
  | done i cs =>
    intro length hle
    subst hrest
    rw [List.append_nil, restore_replicate]
    exact ⟨rfl, rfl⟩
  | @chunk i j kind? chunk cs rest ts hc hs ih =>
    intro length hle
    rcases kind? with _ | kind
    · obtain ⟨c, rfl, hspace⟩ := hc.separator_inv
      obtain ⟨htext, hoffsets⟩ := ih hrest length (by omega)
      refine ⟨htext.trans ?_, hoffsets⟩
      have hone : i + [c].length - length = (i - length) + 1 := by
        rw [List.length_singleton]
        omega
      rw [hone, List.replicate_succ', List.append_assoc, List.singleton_append,
        List.singleton_append]
      refine restore_spaces_congr ?_ (i - length)
      rw [restore_separator rfl, restore_separator hspace]
    · obtain ⟨hne, hno⟩ := hc.no_separator
      obtain ⟨htext, hoffsets⟩ := ih hrest (i + chunk.length) (Nat.le_refl _)
      rw [Nat.sub_self, List.replicate_zero, List.nil_append] at htext
      have hplace : length + (i - length) = i := by omega
      simp only [Token.ofChunk, Option.toList_some, List.map_cons, List.map_nil,
        List.singleton_append, piecesFrom, offsetsFrom, gap_of_le hle, hplace,
        String.length_ofList, hoffsets, String.join_cons, String.toList_append,
        String.toList_ofList, htext]
      refine ⟨?_, rfl⟩
      rw [restore_spaces, restore_append hne hno, List.append_assoc]
      rw [restore_append hne hno]
      simp [hne]

theorem text_of_scan {line : String} {tokens : List Token} (h : Token.scan line = .ok tokens) :
    text tokens = restored line ∧ (offsets tokens).map Int.ofNat = tokens.map (·.position) := by
  obtain ⟨htext, hoffsets⟩ := layout_of_splits (Token.scan_eq_ok_iff.mp h) rfl 0 (Nat.le_refl 0)
  refine ⟨?_, hoffsets⟩
  rw [restored, ← String.toList_inj, String.toList_ofList]
  exact htext

theorem scan_restored {line : String} {tokens : List Token} (h : Token.scan line = .ok tokens) :
    Token.scan (restored line) = .ok tokens := by
  have hscan := Token.scanFrom_restore (Token.scan_eq_ok_iff.mp h) rfl
  rw [Token.scan, restored, String.toList_ofList, hscan]

/-- A token of a line is underlined at its position, and what is missing behind the last one after a
space. -/
theorem column_of_scan {line : String} {tokens : List Token} (h : Token.scan line = .ok tokens)
    {index : Nat} (hindex : index ≤ tokens.length) :
    (∃ t, tokens[index]? = some t ∧ (column tokens index : Int) = t.position)
      ∨ index = tokens.length ∧ column tokens index = (restored line).length + 1 := by
  obtain ⟨htext, hoffsets⟩ := text_of_scan h
  have hat : (offsets tokens)[index]?.map Int.ofNat = tokens[index]?.map (·.position) := by
    rw [← List.getElem?_map, ← List.getElem?_map, hoffsets]
  unfold column
  rcases Nat.lt_or_eq_of_le hindex with hlt | rfl
  · rw [List.getElem?_eq_getElem hlt, Option.map_some, Option.map_eq_some_iff] at hat
    obtain ⟨offset, hoffset, hposition⟩ := hat
    refine Or.inl ⟨tokens[index], List.getElem?_eq_getElem hlt, ?_⟩
    rw [hoffset, Option.getD_some]
    exact hposition
  · rw [List.getElem?_eq_none (Nat.le_refl _), Option.map_none, Option.map_eq_none_iff] at hat
    rw [hat, htext]
    exact Or.inr ⟨rfl, rfl⟩

end Layout

namespace Parser

theorem errorAt_index_le (tokens : List Token) (stop : Stop) :
    (errorAt tokens stop).index ≤ tokens.length := by
  unfold errorAt
  split
  · exact Nat.zero_le _
  · exact Nat.sub_le _ _

end Parser

theorem ParseError.message_of_legible {e : ParseError}
    (h : ∀ lexeme, e.fault ≠ .unreadableNumber lexeme) :
    e.message = Layout.underline e.fault.heading e.tokens e.index := by
  unfold message
  split
  · rename_i lexeme hfault
    exact absurd hfault (h lexeme)
  · rfl

namespace Layout

theorem lines_underline {heading : String} {tokens : List Token} (index : Nat)
    (hheading : '\n' ∉ heading.toList) (htext : '\n' ∉ (text tokens).toList) :
    Text.lines (underline heading tokens index)
      = ["[Parser error] " ++ heading, text tokens,
        String.ofList (List.replicate (column tokens index) ' ') ++ "^"] := by
  have hlabel : '\n' ∉ ("[Parser error] " ++ heading).toList :=
    Text.newline_not_mem_append (by simp) hheading
  have hcaret :
      '\n' ∉ (String.ofList (List.replicate (column tokens index) ' ') ++ "^").toList := by
    simp
  have hlines := Text.lines_between hlabel hcaret (text tokens)
  rw [Text.lines_of_no_newline htext, ← String.append_assoc] at hlines
  unfold underline
  exact hlines

/-- The tokens of a line, laid out, give the line again with plain spaces between tokens and none at
its end: each token stands at its position, and the text is read as the same tokens. So where the
tokens of a line make no statement, the message shows this text between a heading and a caret, and
the caret is below the position of the token at fault, or one space behind the text if what is at
fault is that it ends. -/
theorem text_restores_line {line : String} {tokens : List Token}
    (h : Token.scan line = .ok tokens) :
    text tokens = restored line
    ∧ (offsets tokens).map Int.ofNat = tokens.map (·.position)
    ∧ Token.scan (text tokens) = .ok tokens
    ∧ ∀ depth e, Statement.ofTokens depth tokens = .error e →
      ∃ column : Nat,
        Text.lines e.message
          = ["[Parser error] " ++ e.fault.heading, restored line,
            String.ofList (List.replicate column ' ') ++ "^"]
        ∧ ((∃ t, tokens[e.index]? = some t ∧ (column : Int) = t.position)
          ∨ e.index = tokens.length ∧ column = (restored line).length + 1) := by
  obtain ⟨htext, hoffsets⟩ := text_of_scan h
  refine ⟨htext, hoffsets, by rw [htext, scan_restored h], fun depth e he => ?_⟩
  rw [Parser.ofTokens_eq] at he
  rcases hs : Parser.statement depth tokens with stop | st <;> rw [hs] at he <;> cases he
  have hlegible : ∀ lexeme, (Parser.errorAt tokens stop).fault ≠ .unreadableNumber lexeme :=
    Parser.statement_legible (Token.scan_valued h) stop hs
  have hnewline : '\n' ∉ (text tokens).toList := by
    rw [htext, restored, String.toList_ofList]
    exact newline_not_mem_restore _
  refine ⟨column tokens (Parser.errorAt tokens stop).index, ?_,
    column_of_scan h (Parser.errorAt_index_le tokens stop)⟩
  rw [ParseError.message_of_legible hlegible, ← htext]
  exact lines_underline _ (ParseFault.newline_not_mem_heading _) hnewline

/-- The tab before the bracket becomes a space, what follows it is dropped, and the bracket is
underlined where it stands. -/
theorem text_restores_line_tab :
    let tokens : List Token := [⟨.identifier, "a", 0, none⟩, ⟨.bracketClose, ")", 2, none⟩]
    let e : ParseError := ⟨.trailing .bracketClose, tokens, 1⟩
    Token.scan "a\t)\n" = .ok tokens ∧ Statement.ofTokens 1000 tokens = .error e
      ∧ text tokens = "a )"
      ∧ Text.lines e.message = ["[Parser error] " ++ e.fault.heading, "a )", "  ^"] := by
  intro tokens e
  have hname : Token.Chunk (some .identifier) ['a'] ['\t', ')', '\n'] :=
    .name rfl ⟨by simp, by rintro c ⟨⟩; rfl⟩
  have htab : Token.Chunk none ['\t'] [')', '\n'] := .separator (by decide)
  have hclose : Token.Chunk (some .bracketClose) [')'] ['\n'] := .symbol (by decide)
  have hend : Token.Chunk none ['\n'] [] := .separator (by decide)
  have hscan : Token.scan "a\t)\n" = .ok tokens := Token.scan_eq_ok_iff.mpr
    (.chunk hname (.chunk htab (.chunk hclose (.chunk hend (.done _ _)))))
  have hparse : Statement.ofTokens 1000 tokens = .error e := rfl
  have hline : restored "a\t)\n" = "a )" := by decide
  obtain ⟨htext, -, -, hmessage⟩ := text_restores_line hscan
  obtain ⟨column, hlines, hcolumn⟩ := hmessage 1000 e hparse
  rw [hline] at htext hlines
  obtain rfl : column = 2 := by
    rcases hcolumn with ⟨t, ht, hcolumn⟩ | ⟨hindex, -⟩
    · cases ht
      exact Int.ofNat.inj hcolumn
    · cases hindex
  exact ⟨hscan, hparse, htext, hlines⟩

end Layout

end Reckoner
