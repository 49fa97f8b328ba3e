import ArithLexer.Proofs.Printing
import ArithLexer.Proofs.Rescans

/-!
# Tiles of a source

Reading lexemes up to the end cuts what is left of a source into pieces, each of
which is told from its bytes and from the byte behind it (`Lexeme.Spells`). The
tiles of a text (`tilesFrom`) are these pieces, found without reading. They lie
one behind the other without a gap (`covers_tilesFrom`). Reading lexemes finds
them (`tiles_eq`), and a pull goes through the same tiles and gives back what it
makes of the first that it does not pass over (`seek_tiles`).
-/

namespace ArithLexer

/-- Whether some bytes are the text of a lexeme, where a certain byte comes next. A number has
all the digits that follow, and the end has no bytes. -/
def Lexeme.Spells (lexeme : Lexeme) (text : List UInt8) (next : Option UInt8) : Prop :=
  match lexeme with
  | .token kind =>
    kind.Spells text ∧ (kind = .numericLiteral → next.any isDigit = false)
  | .unsupported .stringLiteral => text = [quoteByte]
  | .skipped b =>
    text = [b] ∧ b ≠ quoteByte ∧ isDigit b = false ∧ TokenKind.ofByte? b = none
  | .finished => text = [] ∧ next = none

/-- A lexeme and the stretch of text that it was read from. -/
structure Tile where
  lexeme : Lexeme
  start : Nat
  stop : Nat
  deriving DecidableEq, Repr

namespace Tile

variable (policy : Policy) (text : List UInt8) (tile : Tile)

def bytes : List UInt8 := text.extract tile.start tile.stop

/-- Whether a tile has the lexeme that its bytes spell, and no other. -/
def Fits : Prop := ∀ lexeme, tile.lexeme = lexeme ↔ lexeme.Spells (tile.bytes text) text[tile.stop]?

/-- What a pull gives back for a tile, unless it passes over it. -/
def pulled? : Option Pulled :=
  match tile.lexeme with
  | .token kind => some (.ok (some (.between text kind tile.start tile.stop)))
  | .unsupported feature =>
    some (.error (.unsupported feature (.between text tile.start tile.stop)))
  | .skipped b =>
    if policy = .reject ∧ isBlank b = false then some (.error (unexpectedAt text tile.start b))
    else none
  | .finished => none

end Tile

/-- Whether tiles of at least one byte each lie one behind the other from `p` up to `q`. -/
def Covers : (p : Nat) → List Tile → (q : Nat) → Prop
  | p, [], q => p = q
  | p, tile :: tiles, q => tile.start = p ∧ p < tile.stop ∧ Covers tile.stop tiles q

/-- The tile at an offset of a text, where a byte lies. -/
def tileAt (text : List UInt8) (p : Nat) (b : UInt8) : Tile := ⟨lexemeOf b, p, lexemeEnd text p⟩

/-- The tiles of a text from an offset on. -/
def tilesFrom (text : List UInt8) (p : Nat) : List Tile :=
  match _h : text[p]? with
  | none => []
  | some b => tileAt text p b :: tilesFrom text (lexemeEnd text p)
termination_by text.length - p
decreasing_by
  have hlt := (List.getElem?_eq_some_iff.mp _h).1
  have hend : p < lexemeEnd text p := lt_lexemeEnd
  omega

section Spellings

variable {text rest : List UInt8} {next : Option UInt8} {lexeme found : Lexeme} {b : UInt8}
  {p : Nat}

theorem lexemeOf_ne_finished : lexemeOf b ≠ .finished := by
  unfold lexemeOf
  split_ifs
  · simp
  · simp
  · cases TokenKind.ofByte? b <;> simp

theorem Lexeme.Spells.eq_finished (h : lexeme.Spells [] next) : lexeme = .finished := by
  cases lexeme with
  | token kind =>
    rcases TokenKind.spells_iff.mp h.1 with ⟨-, hne, -⟩ | ⟨b, hb, -⟩
    · exact absurd rfl hne
    · cases hb
  | skipped b => cases h.1
  | unsupported feature =>
    cases feature
    cases h
  | finished => rfl

/-- The first byte of a text tells which lexeme it is of. -/
theorem Lexeme.Spells.eq_lexemeOf (h : lexeme.Spells (b :: rest) next) : lexeme = lexemeOf b := by
  cases lexeme with
  | token kind =>
    rcases TokenKind.spells_iff.mp h.1 with ⟨rfl, -, hdigits⟩ | ⟨c, hc, hkind⟩
    · exact (lexemeOf_of_isDigit (hdigits b List.mem_cons_self)).symm
    · cases hc
      exact (lexemeOf_of_ofByte? hkind).symm
  | skipped c =>
    obtain ⟨hc, hquote, hdigit, hkind⟩ := h
    cases hc
    exact (lexemeOf_of_ofByte?_eq_none hquote hdigit hkind).symm
  | unsupported feature =>
    cases feature
    cases h
    rfl
  | finished => cases h.1

/-- Bytes are the text of one lexeme at most. -/
theorem Lexeme.Spells.unique (h : lexeme.Spells text next) (h' : found.Spells text next) :
    lexeme = found := by
  cases text with
  | nil => rw [h.eq_finished, h'.eq_finished]
  | cons b rest => rw [h.eq_lexemeOf, h'.eq_lexemeOf]

/-- The lexeme at a boundary is spelled by its bytes. -/
theorem spells_lexemeOf (hb : text[p]? = some b) (hp : Boundary text p) :
    (lexemeOf b).Spells (text.extract p (lexemeEnd text p)) text[lexemeEnd text p]? := by
  by_cases hd : isDigit b = true
  · have hat : digitAt text p = true := by rw [digitAt_of_getElem? hb, hd]
    rw [lexemeOf_of_isDigit hd, lexemeEnd_of_isDigit hb hd]
    have hrun := digitRun_digitsEnd hat hp
    exact ⟨(TokenOf.number hrun).spells, fun _ => hrun.stop⟩
  rw [Bool.not_eq_true] at hd
  rw [lexemeEnd_of_not_isDigit hb hd, extract_succ hb]
  by_cases hquote : b = quoteByte
  · subst b
    rfl
  cases hkind : TokenKind.ofByte? b with
  | some kind =>
    rw [lexemeOf_of_ofByte? hkind]
    have hspells : kind.Spells [b] := TokenKind.spells_iff.mpr (.inr ⟨b, rfl, hkind⟩)
    refine ⟨hspells, ?_⟩
    rintro rfl
    have hdigit : isDigit b = true := by simpa using hspells.2
    rw [hd] at hdigit
    cases hdigit
  | none =>
    rw [lexemeOf_of_ofByte?_eq_none hquote hd hkind]
    exact ⟨rfl, hquote, hd, hkind⟩

theorem fits_of_spells {tile : Tile} (h : tile.lexeme.Spells (tile.bytes text) text[tile.stop]?) :
    tile.Fits text := by
  intro lexeme
  constructor
  · rintro rfl
    exact h
  · intro h'
    exact h.unique h'

theorem fits_tileAt (hb : text[p]? = some b) (hp : Boundary text p) :
    (tileAt text p b).Fits text :=
  fits_of_spells (spells_lexemeOf hb hp)

end Spellings

section Text

variable {policy : Policy} {text : List UInt8} {tiles : List Tile} {tile : Tile} {b : UInt8}
  {p q : Nat}

/-- The tiles of a text leave nothing of it out. -/
theorem covers_tilesFrom (hp : p ≤ text.length) : Covers p (tilesFrom text p) text.length := by
  fun_induction tilesFrom text p with
  | case1 p h =>
    have hle : text.length ≤ p := by simpa using h
    exact Nat.le_antisymm hp hle
  | case2 p b hb ih =>
    have hend := lexemeEnd_le_length (List.getElem?_eq_some_iff.mp hb).1
    exact ⟨rfl, lt_lexemeEnd, ih hend⟩

theorem fits_tilesFrom (hp : Boundary text p) : ∀ tile ∈ tilesFrom text p, tile.Fits text := by
  fun_induction tilesFrom text p with
  | case1 p h => simp
  | case2 p b hb ih =>
    exact List.forall_mem_cons.mpr ⟨fits_tileAt hb hp, ih boundary_lexemeEnd⟩

theorem Covers.le (h : Covers p tiles q) : p ≤ q := by
  induction tiles generalizing p with
  | nil => exact Nat.le_of_eq h
  | cons tile tiles ih =>
    obtain ⟨-, hlt, hrest⟩ := h
    exact Nat.le_trans (Nat.le_of_lt hlt) (ih hrest)

theorem extract_append_extract {m : Nat} (hpm : p ≤ m) (hmq : m ≤ q) :
    text.extract p m ++ text.extract m q = text.extract p q := by
  have hlength : q - p = (m - p) + (q - m) := by omega
  have hdrop : p + (m - p) = m := by omega
  simp only [List.extract_eq_take_drop]
  rw [hlength, List.take_add, List.drop_drop, hdrop]

/-- Tiles that cover a stretch have its bytes, in order. -/
theorem Covers.flatMap_bytes (h : Covers p tiles q) (text : List UInt8) :
    tiles.flatMap (Tile.bytes text) = text.extract p q := by
  induction tiles generalizing p with
  | nil =>
    obtain rfl : p = q := h
    simp
  | cons tile tiles ih =>
    obtain ⟨hstart, hlt, hrest⟩ := h
    rw [List.flatMap_cons, ih hrest, Tile.bytes, hstart]
    exact extract_append_extract (Nat.le_of_lt hlt) hrest.le

/-- A tile that a scan does not stop at is given back if it is a token. -/
theorem pulled?_tileAt (hb : text[p]? = some b) (hp : Boundary text p)
    (hs : policy.stops b = false) :
    (tileAt text p b).pulled? policy text = (tokenAt? text p).map fun t => .ok (some t) := by
  by_cases hd : isDigit b = true
  · rw [tokenAt?_of_isDigit hb hd hp, tileAt, Tile.pulled?, lexemeOf_of_isDigit hd,
      lexemeEnd_of_isDigit hb hd]
    rfl
  rw [Bool.not_eq_true] at hd
  rw [tokenAt?_of_not_isDigit hb hd, tileAt, Tile.pulled?, lexemeEnd_of_not_isDigit hb hd]
  cases hkind : TokenKind.ofByte? b with
  | some kind =>
    rw [lexemeOf_of_ofByte? hkind]
    rfl
  | none =>
    have hquote := ne_quoteByte_of_not_stops hs
    have hpass : ¬ (policy = .reject ∧ isBlank b = false) := by
      rintro ⟨rfl, hblank⟩
      simp [Policy.stops, isForeign, hd, hkind, hblank] at hs
    rw [lexemeOf_of_ofByte?_eq_none hquote hd hkind]
    simp only [if_neg hpass]
    rfl

/-- A tile that stops a scan is given back as an error. -/
theorem pulled?_tileAt_of_stops (hb : text[p]? = some b) (hs : policy.stops b = true) :
    (tileAt text p b).pulled? policy text = some (.error (stopAt text p b)) := by
  have hd := not_isDigit_of_stops hs
  rw [tileAt, Tile.pulled?, lexemeEnd_of_not_isDigit hb hd]
  by_cases hquote : b = quoteByte
  · subst b
    rfl
  · obtain ⟨hpolicy, hforeign⟩ := reject_of_stops hquote hs
    obtain ⟨-, hkind, hblank⟩ := isForeign_iff.mp hforeign
    rw [lexemeOf_of_ofByte?_eq_none hquote hd hkind, stopAt, if_neg hquote]
    simp only [if_pos (And.intro hpolicy hblank)]

end Text

/-! ### Reading tiles -/

namespace Lexer

/-- Reading a lexeme other than the end takes at least one byte. -/
theorem remaining_scanLexeme {l m : Lexer} {lexeme : Lexeme}
    (h : l.scanLexeme = .ok (lexeme, m)) (hl : lexeme ≠ .finished) :
    m.cursor.remaining < l.cursor.remaining := by
  obtain ⟨⟨found, c⟩, hread, hm⟩ := bind_eq_ok.mp h
  cases hm
  exact Cursor.remaining_readLexeme hread hl

/-- The lexemes up to the end, each with the offsets between which it was read, and the lexer
behind the last. -/
def tiles (l : Lexer) : Except Fault (List Tile × Lexer) :=
  match _h : l.scanLexeme with
  | .error fault => .error fault
  | .ok (lexeme, m) =>
    if _hl : lexeme = .finished then .ok ([], m)
    else do
      let (rest, n) ← tiles m
      return (⟨lexeme, l.cursor.offset, m.cursor.offset⟩ :: rest, n)
termination_by l.cursor.remaining
decreasing_by exact remaining_scanLexeme _h _hl

section Tiles

variable {source : Array UInt8} {l m n : Lexer} {lexeme : Lexeme} {rest : List Tile} {p : Nat}

theorem tiles_of_finished (h : l.scanLexeme = .ok (.finished, m)) : l.tiles = .ok ([], m) := by
  rw [tiles]
  split <;> rename_i hs <;> rw [h] at hs <;> cases hs
  rfl

theorem tiles_of_lexeme (h : l.scanLexeme = .ok (lexeme, m)) (hl : lexeme ≠ .finished)
    (hrest : m.tiles = .ok (rest, n)) :
    l.tiles = .ok (⟨lexeme, l.cursor.offset, m.cursor.offset⟩ :: rest, n) := by
  rw [tiles]
  split <;> rename_i hs <;> rw [h] at hs <;> cases hs
  rw [dif_neg hl, hrest]
  rfl

/-- Reading lexemes up to the end finds the tiles of the text, and moves the cursor only. -/
theorem tiles_eq (hc : ∀ n, Position.Countable source.toList n)
    (hl : l.cursor = .behind source p) (hp : p ≤ source.size) :
    l.tiles =
      .ok (tilesFrom source.toList p, { l with cursor := .behind source source.size }) := by
  fun_induction tilesFrom source.toList p generalizing l with
  | case1 p hnone =>
    have hle : source.size ≤ p := by simpa using hnone
    obtain rfl : p = source.size := Nat.le_antisymm hp hle
    rw [← hl]
    exact tiles_of_finished (scanLexeme_of_none hl hnone)
  | case2 p b hb ih =>
    have hend := lexemeEnd_le_size hb
    have hscan := scanLexeme_behind hl hb (hc _)
    have htiles := tiles_of_lexeme hscan lexemeOf_ne_finished (ih rfl hend)
    rw [hl, Cursor.offset_behind hp, Cursor.offset_behind hend] at htiles
    exact htiles

/-- A pull gives back what it makes of the first tile that it does not pass over. -/
theorem seek_tiles (hc : ∀ n, Position.Countable source.toList n)
    (hl : l.cursor = .behind source p) (hp : p ≤ source.size)
    (hb : Boundary source.toList p) :
    ∃ m, l.seek = .ok (((tilesFrom source.toList p).findSome?
      (Tile.pulled? l.config.unknownChars source.toList)).getD (.ok none), m) := by
  fun_induction tilesFrom source.toList p generalizing l with
  | case1 p hnone => exact ⟨l, seek_of_step_some (step_of_none hl hp hnone)⟩
  | case2 p b hbyte ih =>
    have hend := lexemeEnd_le_size hbyte
    rw [List.findSome?_cons]
    cases hs : l.config.unknownChars.stops b with
    | true =>
      obtain ⟨m, hstep, -⟩ := step_stops hl hbyte hs (hc _)
      rw [pulled?_tileAt_of_stops hbyte hs]
      exact ⟨m, seek_of_step_some hstep⟩
    | false =>
      obtain ⟨m, hstep, hm⟩ := step_reads hl hbyte hs hb (hc _)
      rw [pulled?_tileAt hbyte hb hs]
      cases htoken : tokenAt? source.toList p with
      | some t =>
        rw [htoken] at hstep
        exact ⟨m, seek_of_step_some hstep⟩
      | none =>
        rw [htoken] at hstep
        obtain ⟨n, hseek⟩ := ih hm.cursor hend boundary_lexemeEnd
        rw [hm.config] at hseek
        exact ⟨n, (seek_of_step_none hstep).trans hseek⟩

/-- One call reads the lexeme of the bytes that it moves over, and moves only at the end of the
source over none. -/
theorem scanLexeme_fits (hc : ∀ n, Position.Countable source.toList n)
    (hl : l.cursor = .behind source p) (hp : p ≤ source.size)
    (hb : Boundary source.toList p) :
    ∃ lexeme q, l.scanLexeme = .ok (lexeme, { l with cursor := .behind source q }) ∧
      q ≤ source.size ∧ Tile.Fits source.toList ⟨lexeme, p, q⟩ ∧
      (lexeme = .finished ∧ p = source.size ∧ q = p ∨
        lexeme ≠ .finished ∧ p ≠ source.size ∧ p < q) := by
  cases hbyte : source.toList[p]? with
  | none =>
    have hle : source.size ≤ p := by simpa using hbyte
    have hscan := scanLexeme_of_none hl hbyte
    refine ⟨.finished, p, ?_, hp, ?_, .inl ⟨rfl, Nat.le_antisymm hp hle, rfl⟩⟩
    · rw [hscan, ← hl]
    · apply fits_of_spells
      exact ⟨by simp [Tile.bytes], hbyte⟩
  | some b =>
    have hlt := lt_size_of_getElem? hbyte
    have hend := lexemeEnd_le_size hbyte
    exact ⟨lexemeOf b, _, scanLexeme_behind hl hbyte (hc _), hend, fits_tileAt hbyte hb,
      .inr ⟨lexemeOf_ne_finished, Nat.ne_of_lt hlt, lt_lexemeEnd⟩⟩

/-- Wherever a lexer stands, reading lexemes up to the end cuts what is left of the source into
pieces without a gap, each with the lexeme that its bytes spell, and touches nothing but the
cursor. One that is not halted gives back, when it is pulled, what comes of the first piece that
it does not pass over: a token, a reserved byte, or a byte that its settings reject. -/
theorem scanLexeme_tiles_source (source : Array UInt8) (config : Config)
    (hs : source.size ≤ 2 ^ 32 - 2) (before : List Operation) :
    ∃ earlier l, history before (withConfig source config) = .ok (earlier, l) ∧
      (∃ lexeme m, l.scanLexeme = .ok (lexeme, m) ∧ m = { l with cursor := m.cursor } ∧
        Tile.Fits source.toList ⟨lexeme, l.cursor.offset, m.cursor.offset⟩ ∧
        (lexeme = .finished ↔ l.cursor.offset = source.size) ∧ (lexeme = .finished → m = l) ∧
        (lexeme ≠ .finished →
          l.cursor.offset < m.cursor.offset ∧ m.cursor.offset ≤ source.size)) ∧
      ∃ tiles, l.tiles = .ok (tiles, { l with cursor := .behind source source.size }) ∧
        Covers l.cursor.offset tiles source.size ∧
        tiles.flatMap (Tile.bytes source.toList) = source.toList.drop l.cursor.offset ∧
        (∀ tile ∈ tiles, tile.Fits source.toList) ∧
        (l.halted = false → ∃ m, l.nextToken = .ok ((tiles.findSome?
          (Tile.pulled? config.unknownChars source.toList)).getD (.ok none), m)) := by
  have hc := countable_of_size_le hs
  obtain ⟨earlier, l, hhistory, hkeeps⟩ :=
    (history_answers (sound_withConfig source config) before).exists_ok hc
  have hl := hkeeps.sound
  obtain rfl : l.config = config := hkeeps.config_eq
  have hp : l.cursor.offset ≤ source.toList.length := by
    rw [Array.length_toList]
    exact hl.offset_le
  have hcovers := covers_tilesFrom hp
  have hbytes := hcovers.flatMap_bytes source.toList
  rw [Array.length_toList] at hcovers
  refine ⟨earlier, l, hhistory, ?_, _, tiles_eq hc hl.cursor hl.offset_le, hcovers, ?_,
    fits_tilesFrom hl.boundary, ?_⟩
  · obtain ⟨lexeme, q, hscan, hq, hfits, hmoves⟩ :=
      scanLexeme_fits hc hl.cursor hl.offset_le hl.boundary
    have hoffset : (Cursor.behind source q).offset = q := Cursor.offset_behind hq
    refine ⟨lexeme, _, hscan, rfl, ?_, ?_, ?_, ?_⟩
    · rw [hoffset]
      exact hfits
    · rcases hmoves with ⟨hlexeme, hsize, -⟩ | ⟨hlexeme, hsize, -⟩
      · exact iff_of_true hlexeme hsize
      · exact iff_of_false hlexeme hsize
    · intro hlexeme
      rcases hmoves with ⟨-, -, rfl⟩ | ⟨hne, -⟩
      · rw [← hl.cursor]
      · exact absurd hlexeme hne
    · intro hlexeme
      rw [hoffset]
      rcases hmoves with ⟨hfinished, -⟩ | ⟨-, -, hlt⟩
      · exact absurd hfinished hlexeme
      · exact ⟨hlt, hq⟩
  · rw [hbytes, List.extract_eq_take_drop]
    exact List.take_of_length_le (by rw [List.length_drop])
  · intro hactive
    rw [nextToken_of_not_halted hactive]
    exact seek_tiles hc hl.cursor hl.offset_le hl.boundary

/-- Behind the sign and the number of a source that goes on with a blank, a byte to be rejected
and a double quote. -/
theorem scanLexeme_tiles_behind_number :
    ∃ earlier l m,
      history [.scanLexeme, .nextToken]
        (withConfig #[0x2B, 0x37, 0x20, 0x40, 0x22] ⟨.reject, 4⟩) = .ok (earlier, l) ∧
      l.tiles = .ok ([⟨.skipped 0x20, 2, 3⟩, ⟨.skipped 0x40, 3, 4⟩,
        ⟨.unsupported .stringLiteral, 4, 5⟩],
        { l with cursor := .behind #[0x2B, 0x37, 0x20, 0x40, 0x22] 5 }) ∧
      l.nextToken = .ok (.error (unexpectedAt [0x2B, 0x37, 0x20, 0x40, 0x22] 3 0x40), m) := by
  obtain ⟨earlier, l, hhistory, -, tiles, htiles, -, -, -, hpull⟩ :=
    scanLexeme_tiles_source #[0x2B, 0x37, 0x20, 0x40, 0x22] ⟨.reject, 4⟩ (by decide)
      [.scanLexeme, .nextToken]
  have hactive : (history [.scanLexeme, .nextToken]
      (withConfig #[0x2B, 0x37, 0x20, 0x40, 0x22] ⟨.reject, 4⟩)).map (fun r => r.2.halted) =
        .ok false := by decide +kernel
  have hfound : (history [.scanLexeme, .nextToken]
      (withConfig #[0x2B, 0x37, 0x20, 0x40, 0x22] ⟨.reject, 4⟩)).bind
        (fun r => r.2.tiles.map Prod.fst) = .ok [⟨.skipped 0x20, 2, 3⟩, ⟨.skipped 0x40, 3, 4⟩,
          ⟨.unsupported .stringLiteral, 4, 5⟩] := by decide +kernel
  rw [hhistory] at hactive hfound
  obtain ⟨m, hnext⟩ := hpull (Except.ok.inj hactive)
  have hsame : l.tiles.map Prod.fst = .ok tiles := by rw [htiles]; rfl
  obtain rfl := Except.ok.inj (hsame.symm.trans hfound)
  exact ⟨earlier, l, m, hhistory, htiles, hnext⟩

end Tiles

end Lexer
end ArithLexer
