import Mathlib.Data.List.Induction
import Reckoner.Proofs.JoinedTexts
import Reckoner.Proofs.RestoredLayout

/-!
# The spans of tokens in a text

Tokens are laid out one after the other: each adds some spaces and its lexeme at the end of the text
before it (`text_concat`). Whatever the tokens are, their lexemes come to stand in spans that follow
each other in order, with spaces around them and nothing behind the last (`Covers`); one more token
keeps this (`Covers.concat`), so the layout of every list of tokens has it (`covers_text`).

Tokens that have no positions are kept apart by single spaces, so none of their lexemes goes on into
the next, and the text is read as the same tokens (`splits_text`).
-/

namespace Reckoner

namespace Token

/-- In some line the lexeme of the token is read as a token of its kind. -/
def Readable (t : Token) : Prop :=
  ∃ line us, scan line = .ok us ∧ ∃ u ∈ us, u.kind = t.kind ∧ u.lexeme = t.lexeme

theorem Chunk.alone {kind? : Option TokenKind} {chunk cs : List Char} (h : Chunk kind? chunk cs) :
    Chunk kind? chunk [] := by
  cases h with
  | separator hc => exact .separator hc
  | symbol hc => exact .symbol hc
  | name hc hrun => exact .name hc ⟨hrun.1, by simp⟩
  | number hc hrun hpoints => exact .number hc ⟨hrun.1, by simp⟩ hpoints

theorem Splits.chunk_of_mem {i j : Nat} {cs rest : List Char} {ts : List Token}
    (h : Splits i cs ts j rest) : ∀ t ∈ ts, Chunk (some t.kind) t.lexeme.toList [] := by
  induction h with
  | done => simp
  | @chunk i j kind? chunk cs rest ts hc _ ih =>
    intro t ht
    rcases List.mem_append.mp ht with ht | ht
    · simp only [ofChunk, List.mem_map, Option.mem_toList] at ht
      obtain ⟨kind, rfl, rfl⟩ := ht
      rw [String.toList_ofList]
      exact hc.alone
    · exact ih t ht

theorem splits_lexeme {t : Token} (h : Chunk (some t.kind) t.lexeme.toList []) :
    Splits 0 t.lexeme.toList (ofChunk 0 t.lexeme.toList (some t.kind)) t.lexeme.length [] := by
  have hs := Splits.chunk (i := 0) h (.done _ [])
  rwa [List.append_nil, List.append_nil, Nat.zero_add, String.length_toList] at hs

/-- A lexeme is read as a token if it is a chunk of the token's kind, and then even on its own. -/
theorem readable_iff {t : Token} : t.Readable ↔ Chunk (some t.kind) t.lexeme.toList [] := by
  constructor
  · rintro ⟨line, us, hscan, u, hu, hkind, hlexeme⟩
    rw [← hkind, ← hlexeme]
    exact (scan_eq_ok_iff.mp hscan).chunk_of_mem u hu
  · intro h
    exact ⟨t.lexeme, _, scan_eq_ok_iff.mpr (splits_lexeme h), _, List.mem_singleton_self _, rfl,
      String.ofList_toList⟩

end Token

namespace Layout

theorem piecesFrom_append (us : List Token) :
    ∀ (ts : List Token) (length : Nat), piecesFrom length (ts ++ us)
      = piecesFrom length ts ++ piecesFrom (length + (String.join (piecesFrom length ts)).length) us
  | [], length => rfl
  | t :: ts, length => by
    have ih := piecesFrom_append us ts (length + gap length t.position + t.lexeme.length)
    simp only [List.cons_append, piecesFrom, ih, String.join_cons, String.length_append,
      String.length_ofList, List.length_replicate, ← Nat.add_assoc]

theorem offsetsFrom_append (us : List Token) :
    ∀ (ts : List Token) (length : Nat), offsetsFrom length (ts ++ us)
      = offsetsFrom length ts
        ++ offsetsFrom (length + (String.join (piecesFrom length ts)).length) us
  | [], length => rfl
  | t :: ts, length => by
    have ih := offsetsFrom_append us ts (length + gap length t.position + t.lexeme.length)
    simp only [List.cons_append, offsetsFrom, piecesFrom, ih, String.join_cons,
      String.length_append, String.length_ofList, List.length_replicate, ← Nat.add_assoc]

theorem length_offsetsFrom : ∀ (ts : List Token) (length : Nat),
    (offsetsFrom length ts).length = ts.length
  | [], _ => rfl
  | _ :: ts, _ => by simp only [offsetsFrom, List.length_cons, length_offsetsFrom ts]

theorem length_offsets (tokens : List Token) : (offsets tokens).length = tokens.length :=
  length_offsetsFrom tokens 0

theorem text_concat (ts : List Token) (t : Token) :
    (text (ts ++ [t])).toList = (text ts).toList
      ++ List.replicate (gap (text ts).length t.position) ' ' ++ t.lexeme.toList := by
  simp [text, piecesFrom_append, piecesFrom]

theorem offsets_append (ts us : List Token) :
    offsets (ts ++ us) = offsets ts ++ offsetsFrom (text ts).length us := by
  simp [offsets, offsetsFrom_append, text]

theorem offsets_concat (ts : List Token) (t : Token) :
    offsets (ts ++ [t]) = offsets ts ++ [(text ts).length + gap (text ts).length t.position] :=
  offsets_append ts [t]

/-- Where the lexeme of a token that starts at an offset ends. -/
def stop (span : Token × Nat) : Nat := span.2 + span.1.lexeme.length

/-- Tokens with their offsets cover a text: their lexemes stand there, in order and apart from each
other, with spaces everywhere else, and the last of them ends the text. -/
structure Covers (spans : List (Token × Nat)) (text : List Char) : Prop where
  lexeme : ∀ s ∈ spans, s.1.lexeme.toList <+: text.drop s.2
  within : ∀ s ∈ spans, stop s ≤ text.length
  ordered : spans.Pairwise fun a b => stop a ≤ b.2
  space : ∀ i c, text[i]? = some c → (∀ s ∈ spans, ¬ (s.2 ≤ i ∧ i < stop s)) → c = ' '
  ends : text.length = spans.getLast?.elim 0 stop

theorem covers_nil : Covers [] [] where
  lexeme := by simp
  within := by simp
  ordered := .nil
  space := by simp
  ends := rfl

/-- A token that is added at the end, after any number of spaces, takes the text behind them. -/
theorem Covers.concat {spans : List (Token × Nat)} {text : List Char} (h : Covers spans text)
    (t : Token) (n : Nat) :
    Covers (spans ++ [(t, text.length + n)])
      (text ++ List.replicate n ' ' ++ t.lexeme.toList) where
  lexeme s hs := by
    rcases List.mem_append.mp hs with hs | hs
    · have hle : s.2 ≤ text.length := Nat.le_trans (Nat.le_add_right _ _) (h.within s hs)
      rw [List.append_assoc, List.drop_append_of_le_length hle]
      exact (h.lexeme s hs).trans (List.prefix_append _ _)
    · obtain rfl := List.mem_singleton.mp hs
      have hdrop : (text ++ List.replicate n ' ' ++ t.lexeme.toList).drop (text.length + n)
          = t.lexeme.toList := List.drop_left' (by simp)
      exact ⟨[], (List.append_nil _).trans hdrop.symm⟩
  within s hs := by
    rcases List.mem_append.mp hs with hs | hs
    · have hle := h.within s hs
      simp only [List.length_append]
      omega
    · obtain rfl := List.mem_singleton.mp hs
      simp [stop, Nat.add_assoc, String.length_toList]
  ordered := by
    refine List.pairwise_append.mpr ⟨h.ordered, List.pairwise_singleton _ _, fun a ha b hb => ?_⟩
    obtain rfl := List.mem_singleton.mp hb
    exact Nat.le_trans (h.within a ha) (Nat.le_add_right _ _)
  space i c hi hout := by
    have hlast := hout _ (List.mem_append_right spans (List.mem_singleton_self _))
    simp only [stop] at hlast
    rcases Nat.lt_or_ge i text.length with hlt | hge
    · rw [List.append_assoc, List.getElem?_append_left hlt] at hi
      exact h.space i c hi fun s hs => hout s (List.mem_append_left _ hs)
    rcases Nat.lt_or_ge i (text.length + n) with hlt | hge'
    · rw [List.append_assoc, List.getElem?_append_right hge,
        List.getElem?_append_left (by simp; omega), List.getElem?_replicate] at hi
      split at hi
      · cases hi
        rfl
      · cases hi
    · -- the rest of the text is the lexeme itself
      have hbound := (List.getElem?_eq_some_iff.mp hi).1
      simp only [List.length_append, List.length_replicate, String.length_toList] at hbound
      exact absurd ⟨hge', hbound⟩ hlast
  ends := by simp [stop, Nat.add_assoc, String.length_toList]

theorem covers_text (tokens : List Token) :
    Covers (tokens.zip (offsets tokens)) (text tokens).toList := by
  induction tokens using List.reverseRecOn with
  | nil => exact covers_nil
  | append_singleton ts t ih =>
    have hstep := ih.concat t (gap (text ts).length t.position)
    rw [offsets_concat, List.zip_append (length_offsets ts).symm, text_concat]
    rwa [String.length_toList] at hstep

/-- A token whose position the text before it leaves free stands at its position. -/
theorem offset_of_room {tokens : List Token} {k offset : Nat} {t : Token}
    (ht : tokens[k]? = some t) (ho : (offsets tokens)[k]? = some offset)
    (hroom : ((text (tokens.take k)).length : Int) ≤ t.position) : (offset : Int) = t.position := by
  obtain ⟨hlt, hget⟩ := List.getElem?_eq_some_iff.mp ht
  have hlen : (offsets (tokens.take k)).length = k := by
    rw [length_offsets, List.length_take_of_le (Nat.le_of_lt hlt)]
  rw [← List.take_append_drop k tokens, offsets_append, List.drop_eq_getElem_cons hlt, hget,
    List.getElem?_append_right (Nat.le_of_eq hlen), hlen, Nat.sub_self, offsetsFrom,
    List.getElem?_cons_zero, Option.some.injEq] at ho
  obtain ⟨position, hposition⟩ := Int.eq_ofNat_of_zero_le (Int.le_trans (by omega) hroom)
  rw [hposition] at ho hroom ⊢
  rw [gap_of_le (by omega)] at ho
  omega

open Reckoner.Token

theorem gap_zero (length : Nat) : gap length 0 = if length = 0 then 0 else 1 := by
  unfold gap
  split
  · omega
  · split <;> split <;> omega

theorem text_length_ne_zero {tokens : List Token} (hne : tokens ≠ [])
    (h : ∀ t ∈ tokens, t.lexeme.toList ≠ []) : (text tokens).length ≠ 0 := by
  obtain ⟨ts, t, rfl⟩ := (List.eq_nil_or_concat' tokens).resolve_left hne
  have hpos := List.length_pos_iff.mpr (h t (by simp))
  rw [← String.length_toList, text_concat, List.length_append]
  omega

/-- The lexemes of tokens without positions are read again one by one. -/
theorem splits_text {tokens : List Token}
    (h : ∀ t ∈ tokens, Chunk (some t.kind) t.lexeme.toList [] ∧ t.position = 0) :
    ∃ us, Splits 0 (text tokens).toList us (text tokens).length []
      ∧ us.map (·.kind) = tokens.map (·.kind) ∧ us.map (·.lexeme) = tokens.map (·.lexeme)
      ∧ us.map (·.position) = (offsets tokens).map Int.ofNat := by
  induction tokens using List.reverseRecOn with
  | nil => exact ⟨[], .done 0 [], rfl, rfl, rfl⟩
  | append_singleton ts t ih =>
    have hts : ∀ u ∈ ts, Chunk (some u.kind) u.lexeme.toList [] ∧ u.position = 0 :=
      fun u hu => h u (List.mem_append_left _ hu)
    obtain ⟨us, hs, hkinds, hlexemes, hpositions⟩ := ih hts
    obtain ⟨hc, hzero⟩ := h t (by simp)
    have hl := splits_lexeme hc
    have htext := text_concat ts t
    have hoffsets := offsets_concat ts t
    rw [hzero, gap_zero] at htext hoffsets
    rcases eq_or_ne ts [] with rfl | hne
    · have hline : text ([] ++ [t]) = t.lexeme := by
        rw [← String.toList_inj, htext]
        rfl
      rw [hline, hoffsets]
      exact ⟨_, hl, by simp [ofChunk], by simp [ofChunk],
        by simp [ofChunk, text, piecesFrom, offsets, offsetsFrom]⟩
    · have hlong := text_length_ne_zero hne fun u hu => (hts u hu).1.no_separator.1
      rw [if_neg hlong] at htext hoffsets
      have hline : text (ts ++ [t]) = text ts ++ String.singleton ' ' ++ t.lexeme := by
        rw [← String.toList_inj, htext]
        simp
      have hjoined := Splits.joined (w := ' ') (by decide) hs hl
      have hlength : (text (ts ++ [t])).length = t.lexeme.length + ((text ts).length + 1) := by
        rw [hline, String.length_append, String.length_append, String.length_singleton]
        omega
      rw [← hline, ← hlength, ← ofChunk_add] at hjoined
      rw [hoffsets]
      exact ⟨_, hjoined, by simp [hkinds, ofChunk], by simp [hlexemes, ofChunk],
        by simp [hpositions, ofChunk]⟩

/-- Any tokens have one offset each in the text they are laid out in. Their lexemes stand at these
offsets, in order and apart from each other, with spaces around them and nothing behind the last,
and a token stands at its own position if the text before it does not reach past it. If the lexemes
are ones that are read as tokens of their kinds and no token has a position, the text is read as the
same tokens, at the offsets. -/
theorem text_covers_tokens (tokens : List Token) :
    (offsets tokens).length = tokens.length
    ∧ Covers (tokens.zip (offsets tokens)) (text tokens).toList
    ∧ (∀ (k : Nat) (t : Token) (offset : Nat), tokens[k]? = some t →
      (offsets tokens)[k]? = some offset →
      ((text (tokens.take k)).length : Int) ≤ t.position → (offset : Int) = t.position)
    ∧ ((∀ t ∈ tokens, t.Readable ∧ t.position = 0) →
      ∃ us, scan (text tokens) = .ok us
        ∧ us.map (·.kind) = tokens.map (·.kind) ∧ us.map (·.lexeme) = tokens.map (·.lexeme)
        ∧ us.map (·.position) = (offsets tokens).map Int.ofNat) := by
  refine ⟨length_offsets tokens, covers_text tokens, fun k t offset => offset_of_room, fun h => ?_⟩
  obtain ⟨us, hs, hsame⟩ := splits_text fun t ht => ⟨readable_iff.mp (h t ht).1, (h t ht).2⟩
  exact ⟨us, scan_eq_ok_iff.mpr hs, hsame⟩

/-- The lexemes of `1`, `2`, `x` and `1` do not run into each other. -/
theorem text_covers_tokens_apart :
    let tokens : List Token :=
      [⟨.number, "1", 0, some .one⟩, ⟨.number, "2", 0, none⟩, ⟨.identifier, "x", 0, none⟩,
        ⟨.number, "1", 0, none⟩]
    text tokens = "1 2 x 1" ∧ offsets tokens = [0, 2, 4, 6]
      ∧ ∃ us, scan "1 2 x 1" = .ok us
        ∧ us.map (·.kind) = [.number, .number, .identifier, .number]
        ∧ us.map (·.lexeme) = ["1", "2", "x", "1"] ∧ us.map (·.position) = [0, 2, 4, 6] := by
  intro tokens
  have hdigit {c : Char} (hc : c.isDigit = true) (hpoint : c ≠ '.') :
      Chunk (some .number) [c] [] :=
    .number hc ⟨by simp, by simp⟩ (by simp [hpoint])
  have hname : Chunk (some .identifier) ['x'] [] := .name rfl ⟨by simp, by simp⟩
  have hlexemes : ∀ t ∈ tokens, t.Readable ∧ t.position = 0 := by
    intro t ht
    rw [readable_iff]
    simp only [tokens, List.mem_cons, List.not_mem_nil, or_false] at ht
    rcases ht with rfl | rfl | rfl | rfl
    · exact ⟨hdigit (c := '1') rfl (by decide), rfl⟩
    · exact ⟨hdigit (c := '2') rfl (by decide), rfl⟩
    · exact ⟨hname, rfl⟩
    · exact ⟨hdigit (c := '1') rfl (by decide), rfl⟩
  have htext : text tokens = "1 2 x 1" := by decide
  obtain ⟨us, hscan, hkinds, hlexemes, hpositions⟩ := (text_covers_tokens tokens).2.2.2 hlexemes
  rw [htext] at hscan
  exact ⟨htext, by decide, us, hscan, hkinds, hlexemes, hpositions⟩

end Layout

end Reckoner
