import ArithLexer.Proofs.Reading

/-!
# Histories of a lexer

A lexer may be scanned, pulled and read by single lexemes in any order. Two
facts survive all of it: the cursor stands behind some bytes of the source and
not between two digits, and whatever the lexer holds was found in the source
(`Sound`). They are what one operation keeps (`perform_answers`), and by
induction what a history of operations keeps (`history_answers`). The source may
be of any length: the only thing that can come in the way of an answer is a line
or column that its counter cannot hold (`Answers`).

As long as nothing moves the cursor back, the tokens handed out lie behind one
another (`Passes`).
-/

namespace ArithLexer

/-- What an iterator hands out: a token, an error, or nothing. -/
abbrev Item := Option (Except ScanError Token)

/-- The items of an iterator that is asked a number of times. -/
def TokenIter.nextMany : (count : Nat) → TokenIter → Except Fault (List Item × TokenIter)
  | 0, it => .ok ([], it)
  | count + 1, it => do
    let (item, it) ← it.next
    let (items, it) ← nextMany count it
    return (item :: items, it)

theorem TokenIter.nextMany_succ {it it' it'' : TokenIter} {item : Item} {items : List Item}
    {count : Nat} (h : it.next = .ok (item, it')) (h' : it'.nextMany count = .ok (items, it'')) :
    it.nextMany (count + 1) = .ok (item :: items, it'') := by
  rw [nextMany, h]
  change (nextMany count it' >>= _) = _
  rw [h']
  rfl

namespace Lexer

/-- What can be asked of a lexer. To iterate is to make an iterator, to ask it a number of
times and to drop it. -/
inductive Operation where
  | scan
  | nextToken
  | iterate (count : Nat)
  | scanLexeme
  | release
  | takeDiagnostics
  deriving DecidableEq, Repr

/-- What a lexer answers. -/
inductive Outcome where
  | scanned (result : Except ScanError (Buffer Token))
  | pulled (result : Pulled)
  | iterated (items : List Item)
  | lexeme (found : Lexeme)
  | released
  | taken (diagnostics : List Diagnostic)

/-- The answer to an operation and the lexer after it. -/
def perform (l : Lexer) : Operation → Except Fault (Outcome × Lexer)
  | .scan => do
    let (result, l) ← l.scan
    return (.scanned result, l)
  | .nextToken => do
    let (result, l) ← l.nextToken
    return (.pulled result, l)
  | .iterate count => do
    let (items, it) ← l.iter.nextMany count
    return (.iterated items, it.lexer)
  | .scanLexeme => do
    let (found, l) ← l.scanLexeme
    return (.lexeme found, l)
  | .release => .ok (.released, l.release)
  | .takeDiagnostics =>
    let (diagnostics, l) := l.takeDiagnostics
    .ok (.taken diagnostics, l)

/-- The answers to some operations and the lexer after them. -/
def history : List Operation → Lexer → Except Fault (List Outcome × Lexer)
  | [], l => .ok ([], l)
  | op :: ops, l => do
    let (outcome, l) ← l.perform op
    let (outcomes, l) ← history ops l
    return (outcome :: outcomes, l)

theorem history_cons {l m n : Lexer} {op : Operation} {ops : List Operation} {outcome : Outcome}
    {outcomes : List Outcome} (h : l.perform op = .ok (outcome, m))
    (h' : history ops m = .ok (outcomes, n)) :
    history (op :: ops) l = .ok (outcome :: outcomes, n) := by
  rw [history, h]
  change (history ops m >>= _) = _
  rw [h']
  rfl

/-- What every operation keeps, a history keeps; what every answer is, all answers are. -/
theorem history_keeps {P : Lexer → Prop} {Q : Outcome → Prop} {ops : List Operation} {l : Lexer}
    (hstep : ∀ op ∈ ops, ∀ l, P l → ∃ o m, l.perform op = .ok (o, m) ∧ P m ∧ Q o) (hl : P l) :
    ∃ outcomes m, history ops l = .ok (outcomes, m) ∧ P m ∧ ∀ o ∈ outcomes, Q o := by
  induction ops generalizing l with
  | nil => exact ⟨[], l, rfl, hl, by simp⟩
  | cons op ops ih =>
    obtain ⟨outcome, m, hperform, hm, houtcome⟩ := hstep op (by simp) l hl
    obtain ⟨outcomes, n, hhistory, hn, houtcomes⟩ :=
      ih (fun op hop => hstep op (by simp [hop])) hm
    exact ⟨outcome :: outcomes, n, history_cons hperform hhistory, hn,
      List.forall_mem_cons.mpr ⟨houtcome, houtcomes⟩⟩

/-- Whether an operation moves the cursor back to the start. -/
def Operation.resets : Operation → Bool
  | .scan | .release => true
  | _ => false

/-- The item that a pull leads to. -/
def itemOf : Pulled → Item
  | .ok none => none
  | .ok (some token) => some (.ok token)
  | .error found => some (.error found)

/-- The tokens among some items. -/
def tokensOf (items : List Item) : List Token :=
  items.filterMap fun
    | some (.ok token) => some token
    | _ => none

/-- The errors among some items. -/
def errorsOf (items : List Item) : List ScanError :=
  items.filterMap fun
    | some (.error found) => some found
    | _ => none

namespace Outcome

/-- The tokens that were handed out one by one. -/
def pulledTokens : Outcome → List Token
  | pulled result => tokensOf [itemOf result]
  | iterated items => tokensOf items
  | _ => []

/-- All tokens of an answer. -/
def tokens : Outcome → List Token
  | scanned (.ok buffer) => buffer.toList
  | outcome => outcome.pulledTokens

/-- The errors of an answer. -/
def errors : Outcome → List ScanError
  | scanned (.error found) => [found]
  | pulled result => errorsOf [itemOf result]
  | iterated items => errorsOf items
  | _ => []

/-- The diagnostics of an answer. -/
def diagnostics : Outcome → List Diagnostic
  | taken diagnostics => diagnostics
  | _ => []

/-- An answer that tells of the source only. -/
structure Sound (source : Array UInt8) (outcome : Outcome) : Prop where
  tokens : ∀ t ∈ outcome.tokens, TokenOf source.toList t
  errors : ∀ e ∈ outcome.errors, e.span.Placed source.toList
  diagnostics : ∀ d ∈ outcome.diagnostics, d.span.Placed source.toList

theorem mem_tokens (outcome : Outcome) {t : Token} (ht : t ∈ outcome.pulledTokens) :
    t ∈ outcome.tokens := by
  cases outcome with
  | scanned result => cases ht
  | _ => exact ht

theorem Sound.of_nil {source : Array UInt8} {outcome : Outcome} (ht : outcome.tokens = [])
    (he : outcome.errors = []) (hd : outcome.diagnostics = []) : outcome.Sound source where
  tokens := by simp [ht]
  errors := by simp [he]
  diagnostics := by simp [hd]

end Outcome

/-- A lexer that may be asked anything: its cursor stands in the source and splits no
number, the counters have lasted up to it, and all that it holds is of the source. -/
structure Sound (source : Array UInt8) (l : Lexer) : Prop where
  cursor : l.cursor = .behind source l.cursor.offset
  offset_le : l.cursor.offset ≤ source.size
  boundary : Boundary source.toList l.cursor.offset
  countable : Position.Countable source.toList l.cursor.offset
  tokens : ∀ t ∈ l.tokens.toList, TokenOf source.toList t
  diagnostics : ∀ d ∈ l.diagnostics.toList, d.span.Placed source.toList

/-- Tokens that lie behind one another between the cursors of two lexers. -/
structure Passes (l : Lexer) (tokens : List Token) (m : Lexer) : Prop where
  offset_le : l.cursor.offset ≤ m.cursor.offset
  start_le : ∀ t ∈ tokens, l.cursor.offset ≤ t.span.start
  stop_le : ∀ t ∈ tokens, t.span.stop ≤ m.cursor.offset
  disjoint : tokens.Pairwise fun t u => t.span.stop ≤ u.span.start

section Sound

variable {source : Array UInt8} {l m n : Lexer} {p q : Nat}

theorem Sound.of_behind (hcursor : l.cursor = .behind source p) (hp : p ≤ source.size)
    (hb : Boundary source.toList p) (hc : Position.Countable source.toList p)
    (ht : ∀ t ∈ l.tokens.toList, TokenOf source.toList t)
    (hd : ∀ d ∈ l.diagnostics.toList, d.span.Placed source.toList) : Sound source l := by
  have hoffset : l.cursor.offset = p := by rw [hcursor, Cursor.offset_behind hp]
  refine ⟨?_, ?_, ?_, ?_, ht, hd⟩
  · rw [hoffset, hcursor]
  · rwa [hoffset]
  · rwa [hoffset]
  · rwa [hoffset]

theorem Sound.source_eq (hl : Sound source l) : l.cursor.source = source := by
  rw [hl.cursor, Cursor.source_behind]

theorem Sound.tell (hl : Sound source l) (event : Event) : Sound source (l.tell event) :=
  ⟨hl.cursor, hl.offset_le, hl.boundary, hl.countable, hl.tokens, hl.diagnostics⟩

theorem boundary_size (source : Array UInt8) : Boundary source.toList source.size := by
  rw [← Array.length_toList]
  exact boundary_of_not_digitAt not_digitAt_length

theorem sound_withConfig (source : Array UInt8) (config : Config) :
    Sound source (withConfig source config) := by
  refine Sound.of_behind (Cursor.new_eq_behind source) (Nat.zero_le _) boundary_zero
    (Position.countable_zero _) ?_ ?_
  · intro t ht
    rw [withConfig, Buffer.toList_withCapacity] at ht
    cases ht
  · intro d hd
    cases hd

/-- Reading on up to a boundary keeps a lexer sound. -/
theorem Sound.of_reads {xs : List Token} (hl : Sound source l) (h : Reads source p q xs l m)
    (hq : q ≤ source.size) (hb : Boundary source.toList q)
    (hc : Position.Countable source.toList q) (hxs : ∀ t ∈ xs, TokenOf source.toList t) :
    Sound source m := by
  refine Sound.of_behind h.cursor hq hb hc ?_ ?_
  · intro t ht
    rw [h.tokens, Buffer.toList_extend, List.mem_append] at ht
    rcases ht with ht | ht
    · exact hl.tokens t ht
    · exact hxs t ht
  · intro d hd
    rw [h.diagnostics, List.mem_append] at hd
    rcases hd with hd | hd
    · exact hl.diagnostics d hd
    · obtain ⟨i, _, hi⟩ := mem_gather.mp hd
      exact placed_of_reportAt? hi

/-- So does the byte that stops it. -/
theorem Sound.of_stops {k : Nat} {b : UInt8} (hl : Sound source l)
    (h : Stops source k b l m) (hb : source.toList[k]? = some b)
    (hk : digitAt source.toList k = false) (hc : Position.Countable source.toList (k + 1)) :
    Sound source m := by
  refine Sound.of_behind h.cursor (lt_size_of_getElem? hb) (boundary_succ hk) hc ?_ ?_
  · rw [h.tokens]
    exact hl.tokens
  · intro d hd
    rw [h.diagnostics, List.mem_append] at hd
    rcases hd with hd | hd
    · exact hl.diagnostics d hd
    · split_ifs at hd
      · rw [List.mem_singleton.mp hd]
        exact placed_stopAt hb
      · cases hd

end Sound

/-! ### Answers -/

/-- What asking leads to at a source of any length: an answer that is as it should be, unless
a counter ends. -/
inductive Answers {α β : Type} (source : Array UInt8) (P : α → β → Prop) :
    Except Fault (α × β) → Prop
  | ok {a : α} {b : β} (h : P a b) : Answers source P (.ok (a, b))
  | overflow {n : Nat} (h : ¬ Position.Countable source.toList n) :
      Answers source P (.error .positionOverflow)

namespace Answers

variable {α β γ δ : Type} {source : Array UInt8} {P : α → β → Prop} {Q : γ → δ → Prop}
  {result : Except Fault (α × β)} {a : α} {b : β}

/-- What an answer leads to, asking for more leads to. -/
theorem bind {f : α × β → Except Fault (γ × δ)} (h : Answers source P result)
    (hf : ∀ a b, P a b → Answers source Q (f (a, b))) : Answers source Q (result >>= f) := by
  cases h with
  | ok h => exact hf _ _ h
  | overflow h => exact .overflow h

theorem of_ok (h : Answers source P result) (hok : result = .ok (a, b)) : P a b := by
  subst hok
  cases h with
  | ok h => exact h

theorem fault_eq {fault : Fault} (h : Answers source P result) (hfault : result = .error fault) :
    fault = .positionOverflow := by
  subst hfault
  cases h with
  | overflow h => rfl

/-- Where the counters last, there is an answer. -/
theorem exists_ok (h : Answers source P result)
    (hc : ∀ n, Position.Countable source.toList n) : ∃ a b, result = .ok (a, b) ∧ P a b := by
  cases h with
  | ok h => exact ⟨_, _, rfl, h⟩
  | @overflow n h => exact absurd (hc n) h

end Answers

/-! ### One operation -/

section Perform

variable {source : Array UInt8} {l m n : Lexer} {p : Nat}

theorem Passes.nil (h : l.cursor.offset ≤ m.cursor.offset) : Passes l [] m where
  offset_le := h
  start_le := by simp
  stop_le := by simp
  disjoint := .nil

theorem Passes.trans {xs ys : List Token} (h : Passes l xs m) (h' : Passes m ys n) :
    Passes l (xs ++ ys) n where
  offset_le := h.offset_le.trans h'.offset_le
  start_le t ht := by
    rcases List.mem_append.mp ht with ht | ht
    · exact h.start_le t ht
    · exact h.offset_le.trans (h'.start_le t ht)
  stop_le t ht := by
    rcases List.mem_append.mp ht with ht | ht
    · exact (h.stop_le t ht).trans h'.offset_le
    · exact h'.stop_le t ht
  disjoint := by
    rw [List.pairwise_append]
    refine ⟨h.disjoint, h'.disjoint, fun t ht u hu => ?_⟩
    exact (h.stop_le t ht).trans (h'.start_le u hu)

/-- What handing out some items means for a lexer. -/
structure Hands (source : Array UInt8) (items : List Item) (l m : Lexer) : Prop where
  sound : Sound source m
  config_eq : m.config = l.config
  tokens : ∀ t ∈ tokensOf items, TokenOf source.toList t
  errors : ∀ e ∈ errorsOf items, e.span.Placed source.toList
  passes : Passes l (tokensOf items) m

theorem Hands.none (hm : Sound source m) (hconfig : m.config = l.config)
    (h : l.cursor.offset ≤ m.cursor.offset) : Hands source [none] l m where
  sound := hm
  config_eq := hconfig
  tokens := by simp [tokensOf]
  errors := by simp [errorsOf]
  passes := .nil h

theorem Hands.token {t : Token} (hm : Sound source m) (hconfig : m.config = l.config)
    (ht : TokenOf source.toList t) (hstart : l.cursor.offset ≤ t.span.start)
    (hstop : t.span.stop = m.cursor.offset) : Hands source [some (.ok t)] l m where
  sound := hm
  config_eq := hconfig
  tokens := by simpa [tokensOf] using ht
  errors := by simp [errorsOf]
  passes := by
    have hlt := ht.placed.start_lt_stop
    refine ⟨by omega, ?_, ?_, List.pairwise_singleton _ _⟩
    · simpa [tokensOf] using hstart
    · simpa [tokensOf] using hstop.le

theorem Hands.error {e : ScanError} (hm : Sound source m) (hconfig : m.config = l.config)
    (he : e.span.Placed source.toList) (h : l.cursor.offset ≤ m.cursor.offset) :
    Hands source [some (.error e)] l m where
  sound := hm
  config_eq := hconfig
  tokens := by simp [tokensOf]
  errors := by simpa [errorsOf] using he
  passes := .nil h

theorem Hands.append {xs ys : List Item} (h : Hands source xs l m)
    (h' : Hands source ys m n) : Hands source (xs ++ ys) l n where
  sound := h'.sound
  config_eq := h'.config_eq.trans h.config_eq
  tokens t ht := by
    rw [tokensOf, List.filterMap_append, List.mem_append] at ht
    rcases ht with ht | ht
    · exact h.tokens t ht
    · exact h'.tokens t ht
  errors e he := by
    rw [errorsOf, List.filterMap_append, List.mem_append] at he
    rcases he with he | he
    · exact h.errors e he
    · exact h'.errors e he
  passes := by
    rw [tokensOf, List.filterMap_append]
    exact h.passes.trans h'.passes

/-- What a pull finds is handed out, and the lexer stays sound. A token lies behind the
cursor. -/
theorem Sought.hands {r : Pulled} (h : Sought source l.cursor.offset l r m) (hl : Sound source l)
    (hc : Position.Countable source.toList m.cursor.offset) : Hands source [itemOf r] l m := by
  cases h with
  | @token t q m hpq hq hb ht hstop hm =>
    obtain ⟨hof, hstart⟩ := of_gather_eq_singleton ht
    have hqs := hof.placed.stop_le_length
    rw [hstop, Array.length_toList] at hqs
    have hoffset : m.cursor.offset = q := by rw [hm.cursor, Cursor.offset_behind hqs]
    have hsound := hl.of_reads hm hqs hb (hoffset ▸ hc) (by simp)
    exact .token hsound hm.config hof hstart (hstop.trans hoffset.symm)
  | finished hk ht hm =>
    have hoffset : m.cursor.offset = source.size := by
      rw [hm.cursor, Cursor.offset_behind le_rfl]
    have hsound := hl.of_reads hm le_rfl (boundary_size source) (hoffset ▸ hc) (by simp)
    exact .none hsound hm.config (hoffset ▸ hl.offset_le)
  | @stopped k b n m hk hb ht hn hs =>
    have hpk : l.cursor.offset ≤ k := hk ▸ le_firstFrom
    have hlt := lt_size_of_getElem? hb
    have hd : digitAt source.toList k = false := hk ▸ not_digitAt_firstFrom_stops
    have hoffset : m.cursor.offset = k + 1 := by rw [hs.cursor, Cursor.offset_behind hlt]
    rw [hoffset] at hc
    have hsound := hl.of_reads hn hlt.le (boundary_of_not_digitAt hd) (hc.mono (Nat.le_succ k))
      (by simp)
    exact .error (hsound.of_stops hs hb hd hc) (hs.config.trans hn.config) (placed_stopAt hb)
      (by omega)

theorem nextToken_answers (hl : Sound source l) :
    Answers source (fun r m => Hands source [itemOf r] l m) l.nextToken := by
  cases hh : l.halted with
  | true =>
    rw [nextToken, if_pos hh]
    exact .ok (.none hl rfl le_rfl)
  | false =>
    rw [nextToken_of_not_halted hh]
    rcases seek_cases hl.cursor hl.offset_le hl.boundary hl.countable with
      ⟨r, m, hseek, hm, hc⟩ | ⟨hseek, hover⟩
    · rw [hseek]
      exact .ok (hm.hands hl hc)
    · rw [hseek]
      exact .overflow hover

theorem next_answers {it : TokenIter} (hl : Sound source it.lexer) :
    Answers source (fun item it' => Hands source [item] it.lexer it'.lexer) it.next := by
  refine (nextToken_answers hl).bind fun r m hm => ?_
  rcases r with found | _ | token <;> exact .ok hm

theorem nextMany_answers (count : Nat) {it : TokenIter} (hl : Sound source it.lexer) :
    Answers source (fun items it' => Hands source items it.lexer it'.lexer)
      (it.nextMany count) := by
  induction count generalizing it with
  | zero => exact .ok ⟨hl, rfl, by simp [tokensOf], by simp [errorsOf], .nil le_rfl⟩
  | succ count ih =>
    refine (next_answers hl).bind fun item it' hm => ?_
    exact (ih hm.sound).bind fun items it'' hn => .ok (hm.append hn)

/-- What an operation keeps: the lexer stays sound, and the answer tells of the source only.
Unless it starts over, it goes forward. -/
structure Keeps (source : Array UInt8) (l : Lexer) (op : Operation) (outcome : Outcome)
    (m : Lexer) : Prop where
  sound : Sound source m
  config_eq : m.config = l.config
  outcome_sound : outcome.Sound source
  passes : op.resets = false → Passes l outcome.pulledTokens m

/-- A scan keeps a lexer sound, wherever it was and whatever it held. -/
theorem Scanned.keeps {r : Except ScanError (Buffer Token)} (h : Scanned source l r m)
    (hl : Sound source l) (hc : Position.Countable source.toList
      (firstFrom l.config.unknownChars.stops source.toList 0 + 1)) :
    Keeps source l .scan (.scanned r) m := by
  have hstarted : Sound source l.started :=
    .of_behind (cursor_started hl.source_eq) (Nat.zero_le _) boundary_zero
      (Position.countable_zero _) hl.tokens hl.diagnostics
  have hconfig := h.config_eq
  cases h with
  | @finished n hk hn =>
    have hsound := hstarted.of_reads hn le_rfl (boundary_size source)
      (hc.mono (hk ▸ Nat.le_succ _)) fun t ht => (mem_gather_tokenAt?.mp ht).1
    refine ⟨hsound.tell _, hconfig, ⟨hsound.tokens, ?_, ?_⟩, fun h => by cases h⟩
    · intro e he
      cases he
    · intro d hd
      cases hd
  | @stopped k b n m hk hb hn hs =>
    rw [hk] at hc
    have hd : digitAt source.toList k = false := hk ▸ not_digitAt_firstFrom_stops
    have hsound := hstarted.of_reads hn (lt_size_of_getElem? hb).le (boundary_of_not_digitAt hd)
      (hc.mono (Nat.le_succ k)) fun t ht => (mem_gather_tokenAt?.mp ht).1
    refine ⟨hsound.of_stops hs hb hd hc, hconfig, ⟨?_, ?_, ?_⟩, fun h => by cases h⟩
    · intro t ht
      cases ht
    · intro e he
      rw [List.mem_singleton.mp he]
      exact placed_stopAt hb
    · intro d hd
      cases hd

theorem scan_answers (hl : Sound source l) :
    Answers source (fun r m => Keeps source l .scan (.scanned r) m) l.scan := by
  rcases scan_cases hl.source_eq with ⟨hc, r, m, hscan, hm⟩ | ⟨hover, hscan⟩
  · rw [hscan]
    exact .ok (hm.keeps hl hc)
  · rw [hscan]
    exact .overflow hover

/-- Reading a lexeme moves the cursor behind it, unless a counter ends in it. -/
theorem scanLexeme_behind_eq {b : UInt8} (hl : l.cursor = .behind source p)
    (hb : source.toList[p]? = some b) (hc : Position.Countable source.toList p) :
    l.scanLexeme = if Position.Countable source.toList (lexemeEnd source.toList p) then
      .ok (lexemeOf b, { l with cursor := .behind source (lexemeEnd source.toList p) })
      else .error .positionOverflow := by
  rw [scanLexeme, hl, Cursor.readLexeme_behind_eq hb hc]
  split <;> rfl

theorem scanLexeme_behind {b : UInt8} (hl : l.cursor = .behind source p)
    (hb : source.toList[p]? = some b)
    (hc : Position.Countable source.toList (lexemeEnd source.toList p)) :
    l.scanLexeme =
      .ok (lexemeOf b, { l with cursor := .behind source (lexemeEnd source.toList p) }) := by
  rw [scanLexeme_behind_eq hl hb (hc.mono lt_lexemeEnd.le), if_pos hc]

theorem scanLexeme_of_none (hl : l.cursor = .behind source p) (hb : source.toList[p]? = none) :
    l.scanLexeme = .ok (.finished, l) := by
  have hread : l.cursor.readLexeme = .ok (.finished, l.cursor) := by
    rw [hl, Cursor.readLexeme_behind_of_none hb]
  rw [scanLexeme, hread]
  rfl

/-- Reading a lexeme goes from boundary to boundary. -/
theorem scanLexeme_answers (hl : Sound source l) :
    Answers source (fun found m => Keeps source l .scanLexeme (.lexeme found) m)
      l.scanLexeme := by
  cases hb : source.toList[l.cursor.offset]? with
  | none =>
    rw [scanLexeme_of_none hl.cursor hb]
    exact .ok ⟨hl, rfl, .of_nil rfl rfl rfl, fun _ => .nil le_rfl⟩
  | some b =>
    rw [scanLexeme_behind_eq hl.cursor hb hl.countable]
    have hend := lexemeEnd_le_size hb
    split_ifs with hc
    · refine .ok ⟨.of_behind rfl hend boundary_lexemeEnd hc hl.tokens hl.diagnostics, rfl,
        .of_nil rfl rfl rfl, fun _ => .nil ?_⟩
      dsimp only
      rw [Cursor.offset_behind hend]
      exact lt_lexemeEnd.le
    · exact .overflow hc

theorem sound_release (hl : Sound source l) : Sound source l.release := by
  refine Sound.of_behind ?_ (Nat.zero_le _) boundary_zero (Position.countable_zero _) ?_ ?_
  · change l.cursor.reset = _
    rw [hl.cursor, Cursor.reset_behind]
  · intro t ht
    cases ht
  · intro d hd
    cases hd

theorem sound_takeDiagnostics (hl : Sound source l) : Sound source l.takeDiagnostics.2 where
  cursor := hl.cursor
  offset_le := hl.offset_le
  boundary := hl.boundary
  countable := hl.countable
  tokens := hl.tokens
  diagnostics d hd := by cases hd

/-- Every operation is answered, unless a counter ends. -/
theorem perform_answers (hl : Sound source l) (op : Operation) :
    Answers source (Keeps source l op) (l.perform op) := by
  cases op with
  | scan => exact (scan_answers hl).bind fun r m hm => .ok hm
  | nextToken =>
    exact (nextToken_answers hl).bind fun r m hm => .ok ⟨hm.sound, hm.config_eq,
      ⟨hm.tokens, hm.errors, by simp [Outcome.diagnostics]⟩, fun _ => hm.passes⟩
  | iterate count =>
    have hiter : Sound source l.iter.lexer := hl
    exact (nextMany_answers count hiter).bind fun items it hm => .ok ⟨hm.sound, hm.config_eq,
      ⟨hm.tokens, hm.errors, by simp [Outcome.diagnostics]⟩, fun _ => hm.passes⟩
  | scanLexeme => exact (scanLexeme_answers hl).bind fun found m hm => .ok hm
  | release =>
    exact .ok ⟨sound_release hl, rfl, .of_nil rfl rfl rfl, fun h => by cases h⟩
  | takeDiagnostics =>
    refine .ok ⟨sound_takeDiagnostics hl, rfl, ⟨?_, ?_, hl.diagnostics⟩, fun _ => .nil le_rfl⟩
    · intro t ht
      cases ht
    · intro e he
      cases he

end Perform

/-! ### Histories -/

/-- What a history keeps. -/
structure KeepsAll (source : Array UInt8) (l : Lexer) (ops : List Operation)
    (outcomes : List Outcome) (m : Lexer) : Prop where
  sound : Sound source m
  config_eq : m.config = l.config
  outcomes_sound : ∀ o ∈ outcomes, o.Sound source
  passes : (∀ op ∈ ops, op.resets = false) → Passes l (outcomes.flatMap Outcome.pulledTokens) m

section History

variable {source : Array UInt8} {l m n : Lexer}

theorem Keeps.cons {op : Operation} {ops : List Operation} {outcome : Outcome}
    {outcomes : List Outcome} (h : Keeps source l op outcome m)
    (h' : KeepsAll source m ops outcomes n) :
    KeepsAll source l (op :: ops) (outcome :: outcomes) n where
  sound := h'.sound
  config_eq := h'.config_eq.trans h.config_eq
  outcomes_sound := List.forall_mem_cons.mpr ⟨h.outcome_sound, h'.outcomes_sound⟩
  passes hresets := by
    obtain ⟨hop, hops⟩ := List.forall_mem_cons.mp hresets
    rw [List.flatMap_cons]
    exact (h.passes hop).trans (h'.passes hops)

/-- Every history is answered, unless a counter ends. -/
theorem history_answers (hl : Sound source l) (ops : List Operation) :
    Answers source (KeepsAll source l ops) (history ops l) := by
  induction ops generalizing l with
  | nil => exact .ok ⟨hl, rfl, by simp, fun _ => .nil le_rfl⟩
  | cons op ops ih =>
    refine (perform_answers hl op).bind fun outcome m hm => ?_
    exact (ih hm.sound).bind fun outcomes n hn => .ok (hm.cons hn)

/-- Whatever is done to a lexer, its position is the one of its source, and so are the places
of all tokens, diagnostics and errors that it ever tells of. The same goes for the moves of a
cursor. -/
theorem positions_follow_source (source : Array UInt8) (config : Config)
    (hs : source.size ≤ 2 ^ 32 - 2) (ops : List Operation) (moves : List Cursor.Move) :
    (∃ outcomes m, history ops (withConfig source config) = .ok (outcomes, m) ∧
      m.cursor.Placed source ∧
      (∀ t, t ∈ m.tokens.toList ∨ (∃ o ∈ outcomes, t ∈ o.tokens) →
        t.span.Placed source.toList) ∧
      (∀ d, d ∈ m.diagnostics.toList ∨ (∃ o ∈ outcomes, d ∈ o.diagnostics) →
        d.span.Placed source.toList) ∧
      ∀ e, (∃ o ∈ outcomes, e ∈ o.errors) → e.span.Placed source.toList) ∧
    ∃ c, Cursor.runMoves moves (.new source) = .ok c ∧ c.Placed source := by
  have hc := countable_of_size_le hs
  refine ⟨?_, ?_⟩
  · obtain ⟨outcomes, m, hhistory, hm⟩ :=
      (history_answers (sound_withConfig source config) ops).exists_ok hc
    refine ⟨outcomes, m, hhistory, ?_, ?_, ?_, ?_⟩
    · rw [hm.sound.cursor]
      exact Cursor.placed_behind hm.sound.offset_le
    · rintro t (ht | ⟨o, ho, ht⟩)
      · exact (hm.sound.tokens t ht).placed
      · exact ((hm.outcomes_sound o ho).tokens t ht).placed
    · rintro d (hd | ⟨o, ho, hd⟩)
      · exact hm.sound.diagnostics d hd
      · exact (hm.outcomes_sound o ho).diagnostics d hd
    · rintro e ⟨o, ho, he⟩
      exact (hm.outcomes_sound o ho).errors e he
  · obtain ⟨n, hn, hrun⟩ := Cursor.runMoves_behind hc (Nat.zero_le _) moves
    exact ⟨_, hrun, Cursor.placed_behind hn⟩

theorem positions_follow_two_lines :
    (∃ outcomes m, history [.scanLexeme, .nextToken, .scan]
        (withConfig #[0x31, 0x0A, 0x40, 0x22] ⟨.report, 4⟩) = .ok (outcomes, m) ∧
      m.cursor.Placed #[0x31, 0x0A, 0x40, 0x22] ∧
      ∀ d ∈ m.diagnostics.toList, d.span.Placed [0x31, 0x0A, 0x40, 0x22]) ∧
    ∃ c, Cursor.runMoves [.advance, .eatWhile (fun n b => (n < 2 && b != 0x22, n + 1)) 0, .reset]
        (.new #[0x31, 0x0A, 0x40, 0x22]) = .ok c ∧
      c.Placed #[0x31, 0x0A, 0x40, 0x22] := by
  obtain ⟨⟨outcomes, m, hhistory, hplaced, -, hdiagnostics, -⟩, hmoves⟩ :=
    positions_follow_source #[0x31, 0x0A, 0x40, 0x22] ⟨.report, 4⟩ (by decide)
      [.scanLexeme, .nextToken, .scan]
      [.advance, .eatWhile (fun n b => (n < 2 && b != 0x22, n + 1)) 0, .reset]
  exact ⟨⟨outcomes, m, hhistory, hplaced, fun d hd => hdiagnostics d (.inl hd)⟩, hmoves⟩

/-- Whatever is done to a lexer, it never stands between two digits, and every token that it
ever tells of is one of the source, whole. Until it starts over, the tokens that are pulled
lie behind one another. -/
theorem history_splits_no_token (source : Array UInt8) (config : Config)
    (hs : source.size ≤ 2 ^ 32 - 2) (before during : List Operation)
    (hduring : ∀ op ∈ during, op ≠ .scan ∧ op ≠ .release) :
    ∃ earlier l outcomes m, history before (withConfig source config) = .ok (earlier, l) ∧
      history during l = .ok (outcomes, m) ∧
      ¬ (0 < m.cursor.offset ∧ digitAt source.toList (m.cursor.offset - 1) = true ∧
        digitAt source.toList m.cursor.offset = true) ∧
      (∀ t, t ∈ m.tokens.toList ∨ (∃ o ∈ earlier ++ outcomes, t ∈ o.tokens) →
        TokenOf source.toList t ∧
          t.lexeme.bytes = source.toList.extract t.span.start t.span.stop) ∧
      (outcomes.flatMap Outcome.pulledTokens).Pairwise fun t u =>
        t.span.start < u.span.start ∧ t.span.stop ≤ u.span.start := by
  have hc := countable_of_size_le hs
  obtain ⟨earlier, l, hbefore, hl⟩ :=
    (history_answers (sound_withConfig source config) before).exists_ok hc
  obtain ⟨outcomes, m, hhistory, hm⟩ := (history_answers hl.sound during).exists_ok hc
  have hresets : ∀ op ∈ during, op.resets = false := by
    intro op hop
    obtain ⟨hscan, hrelease⟩ := hduring op hop
    cases op <;> simp_all [Operation.resets]
  refine ⟨earlier, l, outcomes, m, hbefore, hhistory, hm.sound.boundary, ?_, ?_⟩
  · intro t ht
    have hof : TokenOf source.toList t := by
      rcases ht with ht | ⟨o, ho, ht⟩
      · exact hm.sound.tokens t ht
      · rcases List.mem_append.mp ho with ho | ho
        · exact (hl.outcomes_sound o ho).tokens t ht
        · exact (hm.outcomes_sound o ho).tokens t ht
    exact ⟨hof, hof.bytes_eq⟩
  · refine (hm.passes hresets).disjoint.imp_of_mem fun {t u} ht hu hle => ?_
    obtain ⟨o, ho, ht⟩ := List.mem_flatMap.mp ht
    have hlt := ((hm.outcomes_sound o ho).tokens t (o.mem_tokens ht)).placed.start_lt_stop
    exact ⟨by omega, hle⟩

theorem history_splits_no_number_behind_quote :
    ∃ earlier l outcomes m,
      history [.nextToken, .release] (withConfig #[0x22, 0x31, 0x32] .default) =
        .ok (earlier, l) ∧
      history [.scanLexeme, .nextToken, .iterate 2] l = .ok (outcomes, m) ∧
      ∀ t ∈ m.tokens.toList, TokenOf [0x22, 0x31, 0x32] t := by
  obtain ⟨earlier, l, outcomes, m, hbefore, hduring, -, htokens, -⟩ :=
    history_splits_no_token #[0x22, 0x31, 0x32] .default (by decide) [.nextToken, .release]
      [.scanLexeme, .nextToken, .iterate 2] (by decide)
  exact ⟨earlier, l, outcomes, m, hbefore, hduring, fun t ht => (htokens t (.inl ht)).1⟩

end History

end Lexer
end ArithLexer
