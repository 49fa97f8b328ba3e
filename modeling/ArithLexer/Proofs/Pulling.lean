import ArithLexer.Proofs.Histories
import ArithLexer.Proofs.Scans

/-!
# Pulling

What a lexer will still hand out follows from its source and its position, and
so do the place where pulling ends and the diagnostics that are collected on
the way (`outstanding`, `finalCursor`, `finalDiagnostics`). One pull takes the
first answer off and changes nothing else of this (`nextToken_yields`). By
induction many pulls yield the answers in order, however they are split among
calls and iterators (`history_yields`); a scan appends the same tokens and ends
at the same place.

`Performed` tells what each operation does, pulling or not. An error halts a
lexer, and until it starts over, pulling finds nothing and does nothing
(`history_of_halted`).
-/

namespace ArithLexer

/-! ### What is still to come -/

/-- The answers from an offset on: the tokens before the next stop, then the error over it. -/
def answersFrom (stops : UInt8 → Bool) (text : List UInt8) (p : Nat) :
    List (Except ScanError Token) :=
  let k := firstFrom stops text p
  (gather (tokenAt? text) p k).map .ok ++ (text[k]?.map fun b => .error (stopAt text k b)).toList

/-- The tokens of a scan, and the error that ended it. -/
def answersOf (tokens : List Token) (result : Except ScanError (Buffer Token)) :
    List (Except ScanError Token) :=
  tokens.map .ok ++ match result with
    | .ok _ => []
    | .error found => [.error found]

namespace Lexer

/-- Where a lexer that goes on from its position will stop. -/
def stopOffset (source : Array UInt8) (l : Lexer) : Nat :=
  firstFrom l.config.unknownChars.stops source.toList l.cursor.offset

/-- What a lexer will still hand out. -/
def outstanding (source : Array UInt8) (l : Lexer) : List (Except ScanError Token) :=
  if l.halted then []
  else answersFrom l.config.unknownChars.stops source.toList l.cursor.offset

/-- The cursor of a lexer once nothing is left to hand out. -/
def finalCursor (source : Array UInt8) (l : Lexer) : Cursor :=
  if l.halted then l.cursor else .behind source (l.stopOffset source + 1)

/-- The diagnostics of a lexer once nothing is left to hand out. -/
def finalDiagnostics (source : Array UInt8) (l : Lexer) : List Diagnostic :=
  l.diagnostics.toList ++
    if l.halted then []
    else gather (noticeAt? l.config.unknownChars source.toList) l.cursor.offset
      (l.stopOffset source + 1)

/-- Where a pull leaves the cursor. -/
def cursorAfter (source : Array UInt8) (l : Lexer) : Item → Cursor
  | some (.ok t) => .behind source t.span.stop
  | _ => l.finalCursor source

/-- Whether a pull leaves the lexer halted. -/
def haltedAfter (l : Lexer) : Item → Bool
  | some (.error _) => true
  | _ => l.halted

/-- What one pull does to a lexer. -/
structure Yields (source : Array UInt8) (l : Lexer) (item : Item) (m : Lexer) : Prop where
  item_eq : item = (l.outstanding source).head?
  outstanding_eq : m.outstanding source = (l.outstanding source).tail
  cursor : m.cursor = l.cursorAfter source item
  finalCursor_eq : m.finalCursor source = l.finalCursor source
  finalDiagnostics_eq : m.finalDiagnostics source = l.finalDiagnostics source
  halted : m.halted = l.haltedAfter item
  config : m.config = l.config
  tokens : m.tokens = l.tokens

section Yields

variable {source : Array UInt8} {l m n : Lexer} {p q : Nat} {r : Pulled}

theorem Yields.of_halted (hh : l.halted = true) : Yields source l none l where
  item_eq := by simp [outstanding, hh]
  outstanding_eq := by simp [outstanding, hh]
  cursor := by simp [cursorAfter, finalCursor, hh]
  finalCursor_eq := rfl
  finalDiagnostics_eq := rfl
  halted := rfl
  config := rfl
  tokens := rfl

theorem answersFrom_size (stops : UInt8 → Bool) (source : Array UInt8) :
    firstFrom stops source.toList source.size = source.size ∧
      answersFrom stops source.toList source.size = [] := by
  have hk : firstFrom stops source.toList source.size = source.size :=
    firstFrom_eq le_rfl (by simp) (fun i _ _ _ _ => by omega) (by simp)
  exact ⟨hk, by simp [answersFrom, hk]⟩

theorem outstanding_of_active (hh : l.halted = false) (hoffset : l.cursor.offset = p) :
    l.outstanding source = answersFrom l.config.unknownChars.stops source.toList p := by
  rw [outstanding, if_neg (by simp [hh]), hoffset]

theorem finalCursor_of_active (hh : l.halted = false) (hoffset : l.cursor.offset = p) :
    l.finalCursor source =
      .behind source (firstFrom l.config.unknownChars.stops source.toList p + 1) := by
  rw [finalCursor, if_neg (by simp [hh]), stopOffset, hoffset]

theorem finalDiagnostics_of_active (hh : l.halted = false) (hoffset : l.cursor.offset = p) :
    l.finalDiagnostics source = l.diagnostics.toList ++
      gather (noticeAt? l.config.unknownChars source.toList) p
        (firstFrom l.config.unknownChars.stops source.toList p + 1) := by
  rw [finalDiagnostics, if_neg (by simp [hh]), stopOffset, hoffset]

/-- Reading on does not change what the lexer will have collected in the end. -/
theorem Reads.finalDiagnostics_eq {xs : List Token} (h : Reads source p q xs l m)
    (hl : l.cursor.offset = p) (hm : m.cursor.offset = q) (hh : l.halted = false) (hpq : p ≤ q)
    (hq : q ≤ firstFrom l.config.unknownChars.stops source.toList p) (hp : p ≤ source.size) :
    m.finalDiagnostics source = l.finalDiagnostics source := by
  rw [finalDiagnostics_of_active (h.halted.trans hh) hm, finalDiagnostics_of_active hh hl,
    h.firstFrom_eq hpq hq hp, h.diagnostics, h.config, ← gather_noticeAt? hq, List.append_assoc,
    gather_append hpq (by omega)]

/-- A lexer that is not halted yields what it finds. -/
theorem Sought.yields (hl : l.cursor.offset = p) (hp : p ≤ source.size)
    (hh : l.halted = false) (h : Sought source p l r m) : Yields source l (itemOf r) m := by
  have houtstanding : l.outstanding source = _ := outstanding_of_active hh hl
  have hfinal : l.finalCursor source = _ := finalCursor_of_active hh hl
  cases h with
  | @token t q m hpq hq hb ht hstop hm =>
    have hqs := (of_gather_eq_singleton ht).1.placed.stop_le_length
    rw [hstop, Array.length_toList] at hqs
    have hoffset : m.cursor.offset = q := by rw [hm.cursor, Cursor.offset_behind hqs]
    have hsame := hm.firstFrom_eq hpq hq hp
    have hhalted := hm.halted.trans hh
    have hanswers : l.outstanding source = .ok t :: m.outstanding source := by
      rw [houtstanding, outstanding_of_active hhalted hoffset, answersFrom, answersFrom, hsame,
        ← gather_append hpq hq, ht]
      rfl
    refine ⟨?_, ?_, ?_, ?_, ?_, hm.halted, hm.config, hm.tokens⟩
    · rw [hanswers]
      rfl
    · rw [hanswers]
      rfl
    · rw [hm.cursor, ← hstop]
      rfl
    · rw [hfinal, finalCursor_of_active hhalted hoffset, hsame]
    · exact hm.finalDiagnostics_eq hl hoffset hh hpq hq hp
  | finished hk ht hm =>
    have hoffset : m.cursor.offset = source.size := by
      rw [hm.cursor, Cursor.offset_behind le_rfl]
    have hhalted := hm.halted.trans hh
    have hanswers : l.outstanding source = [] := by
      rw [houtstanding]
      simp [answersFrom, hk, ht]
    have hsize := answersFrom_size m.config.unknownChars.stops source
    refine ⟨?_, ?_, ?_, ?_, ?_, hm.halted, hm.config, hm.tokens⟩
    · rw [hanswers]
      rfl
    · rw [hanswers, outstanding_of_active hhalted hoffset, hsize.2]
      rfl
    · change m.cursor = l.finalCursor source
      rw [hfinal, hk, Cursor.behind_succ_of_size_le le_rfl]
      exact hm.cursor
    · rw [hfinal, finalCursor_of_active hhalted hoffset, hsize.1, hk]
    · exact hm.finalDiagnostics_eq hl hoffset hh hp hk.ge hp
  | @stopped k b n m hk hb ht hn hs =>
    have hpk : p ≤ k := hk ▸ le_firstFrom
    have hanswers : l.outstanding source = [.error (stopAt source.toList k b)] := by
      rw [houtstanding]
      simp [answersFrom, hk, ht, hb]
    have hhalted : m.halted = true := hs.halted
    have hstops : l.config.unknownChars.stops b = true := of_firstFrom_eq hk hb
    refine ⟨?_, ?_, ?_, ?_, ?_, hhalted, hs.config.trans hn.config, hs.tokens.trans hn.tokens⟩
    · rw [hanswers]
      rfl
    · rw [hanswers]
      simp [outstanding, hhalted]
    · change m.cursor = l.finalCursor source
      rw [hfinal, hk]
      exact hs.cursor
    · rw [finalCursor, if_pos hhalted, hfinal, hk, hs.cursor]
    · rw [finalDiagnostics, if_pos hhalted, List.append_nil, hs.diagnostics, hn.diagnostics,
        finalDiagnostics_of_active hh hl, hk, ← gather_append hpk (Nat.le_succ k),
        gather_noticeAt? hk.ge, gather_noticeAt?_of_stops hb hstops, List.append_assoc]

/-- One pull of a sound lexer yields the next answer. -/
theorem nextToken_yields (hc : ∀ n, Position.Countable source.toList n) (hl : Sound source l) :
    ∃ r m, l.nextToken = .ok (r, m) ∧ Sound source m ∧ Yields source l (itemOf r) m := by
  cases hh : l.halted with
  | true => exact ⟨.ok none, l, if_pos hh, hl, .of_halted hh⟩
  | false =>
    obtain ⟨r, m, hseek, hm⟩ := seek_spec hl.cursor hl.offset_le hl.boundary (hc _)
    exact ⟨r, m, (nextToken_of_not_halted hh).trans hseek, (hm.hands hl (hc _)).sound,
      hm.yields rfl hl.offset_le hh⟩

end Yields

/-! ### Many pulls -/

/-- What some pulls do to a lexer. -/
structure YieldsAll (source : Array UInt8) (l : Lexer) (items : List Item) (m : Lexer) :
    Prop where
  items_eq : items = (List.range items.length).map fun i => (l.outstanding source)[i]?
  outstanding_eq : m.outstanding source = (l.outstanding source).drop items.length
  arrives : (l.outstanding source).length < items.length ∨ l.cursor = l.finalCursor source →
    m.cursor = l.finalCursor source
  finalCursor_eq : m.finalCursor source = l.finalCursor source
  finalDiagnostics_eq : m.finalDiagnostics source = l.finalDiagnostics source
  halted : l.halted = true ∨ errorsOf items ≠ [] → m.halted = true
  config : m.config = l.config
  tokens : m.tokens = l.tokens

section YieldsAll

variable {source : Array UInt8} {l m n : Lexer} {xs ys : List Item} {item : Item}

/-- Where pulling ends there is nothing left to hand out or to tell of. -/
theorem arrived (hl : Sound source l) (h : l.cursor = l.finalCursor source) :
    l.outstanding source = [] ∧ l.finalDiagnostics source = l.diagnostics.toList := by
  cases hh : l.halted with
  | true => simp [outstanding, finalDiagnostics, hh]
  | false =>
    -- the cursor stands behind the stop, which is not before it
    have hle := hl.offset_le
    have hpk : l.cursor.offset ≤ l.stopOffset source := le_firstFrom
    have hoffset : l.cursor.offset = min (l.stopOffset source + 1) source.size := by
      rw [finalCursor_of_active hh rfl] at h
      simpa [Cursor.offset, stopOffset] using congrArg Cursor.offset h
    have hsize : l.cursor.offset = source.size := by omega
    have hend := answersFrom_size l.config.unknownChars.stops source
    rw [outstanding_of_active hh hsize, finalDiagnostics_of_active hh hsize, hend.1, hend.2,
      gather_succ, noticeAt?_of_none (by simp)]
    simp

theorem YieldsAll.nil : YieldsAll source l [] l where
  items_eq := rfl
  outstanding_eq := rfl
  arrives h := by simpa using h
  finalCursor_eq := rfl
  finalDiagnostics_eq := rfl
  halted h := by simpa [errorsOf] using h
  config := rfl
  tokens := rfl

theorem Yields.all (hl : Sound source l) (h : Yields source l item m) :
    YieldsAll source l [item] m where
  items_eq := by simp [h.item_eq, List.head?_eq_getElem?]
  outstanding_eq := by simp [h.outstanding_eq]
  arrives hor := by
    have hnil : l.outstanding source = [] := by
      rcases hor with hlt | harrived
      · simpa using hlt
      · exact (arrived hl harrived).1
    have hitem := h.item_eq
    rw [hnil, List.head?_nil] at hitem
    rw [h.cursor, hitem]
    rfl
  finalCursor_eq := h.finalCursor_eq
  finalDiagnostics_eq := h.finalDiagnostics_eq
  halted hor := by
    rw [h.halted]
    rcases item with _ | found | t
    · simpa [errorsOf, haltedAfter] using hor
    · rfl
    · simpa [errorsOf, haltedAfter] using hor
  config := h.config
  tokens := h.tokens

theorem YieldsAll.append (h : YieldsAll source l xs m) (h' : YieldsAll source m ys n) :
    YieldsAll source l (xs ++ ys) n where
  items_eq := by
    rw [List.length_append, List.range_add, List.map_append, List.map_map, ← h.items_eq]
    refine congrArg (xs ++ ·) (h'.items_eq.trans (List.map_congr_left fun i _ => ?_))
    rw [h.outstanding_eq, List.getElem?_drop]
    rfl
  outstanding_eq := by
    rw [h'.outstanding_eq, h.outstanding_eq, List.drop_drop, List.length_append]
  arrives hor := by
    rw [← h.finalCursor_eq]
    refine h'.arrives ?_
    rw [h.finalCursor_eq, h.outstanding_eq, List.length_drop]
    rcases hor with hlt | harrived
    · by_cases hxs : (l.outstanding source).length < xs.length
      · exact .inr (h.arrives (.inl hxs))
      · rw [List.length_append] at hlt
        exact .inl (by omega)
    · exact .inr (h.arrives (.inr harrived))
  finalCursor_eq := h'.finalCursor_eq.trans h.finalCursor_eq
  finalDiagnostics_eq := h'.finalDiagnostics_eq.trans h.finalDiagnostics_eq
  halted hor := by
    refine h'.halted ?_
    rw [errorsOf, List.filterMap_append, Ne, List.append_eq_nil_iff, not_and_or] at hor
    rcases hor with hl | hxs | hys
    · exact .inl (h.halted (.inl hl))
    · exact .inl (h.halted (.inr hxs))
    · exact .inr hys
  config := h'.config.trans h.config
  tokens := h'.tokens.trans h.tokens

theorem next_yields (hc : ∀ n, Position.Countable source.toList n) {it : TokenIter}
    (hl : Sound source it.lexer) :
    ∃ item it', it.next = .ok (item, it') ∧ Sound source it'.lexer ∧
      Yields source it.lexer item it'.lexer := by
  obtain ⟨r, m, hnext, hsound, hm⟩ := nextToken_yields hc hl
  refine ⟨itemOf r, ⟨m⟩, ?_, hsound, hm⟩
  rw [TokenIter.next, hnext]
  rcases r with found | _ | token <;> rfl

theorem nextMany_yields (hc : ∀ n, Position.Countable source.toList n) (count : Nat)
    {it : TokenIter} (hl : Sound source it.lexer) :
    ∃ items it', it.nextMany count = .ok (items, it') ∧ items.length = count ∧
      Sound source it'.lexer ∧ YieldsAll source it.lexer items it'.lexer := by
  induction count generalizing it with
  | zero => exact ⟨[], it, rfl, rfl, hl, .nil⟩
  | succ count ih =>
    obtain ⟨item, it', hnext, hsound, hm⟩ := next_yields hc hl
    obtain ⟨items, it'', hrest, hlength, hsound', hn⟩ := ih hsound
    exact ⟨item :: items, it'', TokenIter.nextMany_succ hnext hrest,
      by rw [List.length_cons, hlength], hsound', (hm.all hl).append hn⟩

end YieldsAll

/-! ### Any split of the pulls -/

namespace Outcome

/-- The items of an answer that was pulled. -/
def items : Outcome → List Item
  | pulled result => [itemOf result]
  | iterated items => items
  | _ => []

end Outcome

/-- Whether an operation does nothing but pull. -/
def Operation.pulls : Operation → Bool
  | .nextToken | .iterate _ => true
  | _ => false

/-- How often some operations pull. -/
def Operation.countPulls : List Operation → Nat
  | [] => 0
  | .nextToken :: ops => 1 + countPulls ops
  | .iterate count :: ops => count + countPulls ops
  | _ :: ops => countPulls ops

section Splits

variable {source : Array UInt8} {l m : Lexer} {op : Operation}

theorem perform_yields (hc : ∀ n, Position.Countable source.toList n) (hl : Sound source l)
    (hop : op.pulls = true) :
    ∃ outcome m, l.perform op = .ok (outcome, m) ∧
      outcome.items.length = Operation.countPulls [op] ∧ outcome.errors = errorsOf outcome.items ∧
      Sound source m ∧ YieldsAll source l outcome.items m := by
  cases op with
  | nextToken =>
    obtain ⟨r, m, hnext, hsound, hm⟩ := nextToken_yields hc hl
    exact ⟨.pulled r, m, by rw [perform, hnext]; rfl, rfl, rfl, hsound, hm.all hl⟩
  | iterate count =>
    have hiter : Sound source l.iter.lexer := hl
    obtain ⟨items, it, hnext, hlength, hsound, hm⟩ := nextMany_yields hc count hiter
    exact ⟨.iterated items, it.lexer, by rw [perform, hnext]; rfl, hlength, rfl, hsound, hm⟩
  | _ => cases hop

theorem history_yields (hc : ∀ n, Position.Countable source.toList n) (hl : Sound source l)
    {ops : List Operation} (hops : ∀ op ∈ ops, op.pulls = true) :
    ∃ outcomes m, history ops l = .ok (outcomes, m) ∧
      (outcomes.flatMap Outcome.items).length = Operation.countPulls ops ∧
      Sound source m ∧ YieldsAll source l (outcomes.flatMap Outcome.items) m := by
  induction ops generalizing l with
  | nil => exact ⟨[], l, rfl, rfl, hl, .nil⟩
  | cons op ops ih =>
    have hop := hops op (by simp)
    obtain ⟨outcome, m, hperform, hlength, -, hsound, hm⟩ := perform_yields hc hl hop
    obtain ⟨outcomes, n, hhistory, hlengths, hsound', hn⟩ :=
      ih hsound fun op hop => hops op (by simp [hop])
    refine ⟨outcome :: outcomes, n, history_cons hperform hhistory, ?_, hsound', ?_⟩
    · rw [List.flatMap_cons, List.length_append, hlength, hlengths]
      cases op <;> simp [Operation.countPulls]
    · rw [List.flatMap_cons]
      exact hm.append hn

end Splits

/-! ### Scans beside pulls -/

section Scans

variable {source : Array UInt8} {config : Config} {l m : Lexer}
  {r : Except ScanError (Buffer Token)}

/-- A scan collects the diagnostics of all bytes up to its stop. -/
theorem Scanned.notices_eq (h : Scanned source l r m) {k : Nat}
    (hk : firstFrom l.config.unknownChars.stops source.toList 0 = k) :
    m.diagnostics.toList = l.diagnostics.toList ++
      gather (noticeAt? l.config.unknownChars source.toList) 0 (k + 1) := by
  rw [h.diagnostics_eq hk, ← gather_append (Nat.zero_le k) (Nat.le_succ k),
    gather_noticeAt? hk.ge]
  cases hb : source.toList[k]? with
  | none => simp [gather_succ, noticeAt?_of_none hb]
  | some b =>
    rw [gather_noticeAt?_of_stops hb (of_firstFrom_eq hk hb)]
    by_cases hq : b = quoteByte
    · simp [hq]
    · simp [hq]

/-- Any scan of a sound lexer leaves it sound. -/
theorem scan_scanned (hc : ∀ n, Position.Countable source.toList n) (hl : Sound source l) :
    ∃ r m, l.scan = .ok (r, m) ∧ Sound source m ∧ Scanned source l r m := by
  obtain ⟨r, m, hscan, hm⟩ := scan_spec hl.source_eq (hc _)
  exact ⟨r, m, hscan, (hm.keeps hl (hc _)).sound, hm⟩

/-- A scan with an empty buffer finds the answers from the start on. -/
theorem Scanned.answersOf_eq (h : Scanned source l r m) (hempty : l.tokens.toList = []) :
    answersOf m.tokens.toList r = answersFrom l.config.unknownChars.stops source.toList 0 := by
  have htokens := congrArg Buffer.toList h.tokens_eq
  rw [Buffer.toList_extend, hempty, List.nil_append] at htokens
  have hresult := h.result_eq rfl
  cases hb : source.toList[firstFrom l.config.unknownChars.stops source.toList 0]? with
  | none =>
    rw [hb] at hresult
    simp only [answersOf, answersFrom, hresult, htokens, hb]
    rfl
  | some b =>
    rw [hb] at hresult
    simp only [answersOf, answersFrom, hresult, htokens, hb]
    rfl

/-- What the scan of a fresh lexer holds in the end, and what it returns. -/
theorem scan_contents (config : Config) (hs : source.size ≤ 2 ^ 32 - 2) :
    ∃ r m k, (withConfig source config).scan = .ok (r, m) ∧
      k = stopIndex config.unknownChars source.toList ∧
      m.tokens.toList = gather (tokenAt? source.toList) 0 k ∧
      m.diagnostics.toList = gather (noticeAt? config.unknownChars source.toList) 0 (k + 1) ∧
      m.cursor = .behind source (k + 1) ∧
      r = match source.toList[k]? with
        | none => .ok m.tokens
        | some b => .error (stopAt source.toList k b) := by
  obtain ⟨r, m, hscan, hm⟩ := scan_withConfig config hs
  refine ⟨r, m, _, hscan, rfl, ?_, ?_, ?_, result_of_scanned hm⟩
  · have htokens := congrArg Buffer.toList hm.tokens_eq
    have hempty : (withConfig source config).tokens.toList = [] := Buffer.toList_withCapacity _
    rw [Buffer.toList_extend, hempty, List.nil_append] at htokens
    rw [htokens, ← firstFrom_eq_stopIndex]
    rfl
  · exact hm.notices_eq firstFrom_eq_stopIndex
  · rw [← firstFrom_eq_stopIndex]
    exact hm.cursor_eq

/-- A scan of a fresh lexer finds what pulling it hands out, and ends where that does. -/
theorem scan_withConfig_eq (config : Config) (hs : source.size ≤ 2 ^ 32 - 2) :
    ∃ r m, (withConfig source config).scan = .ok (r, m) ∧
      answersOf m.tokens.toList r = (withConfig source config).outstanding source ∧
      m.cursor = (withConfig source config).finalCursor source ∧
      m.diagnostics.toList = (withConfig source config).finalDiagnostics source := by
  obtain ⟨r, m, hscan, hm⟩ := scan_withConfig config hs
  exact ⟨r, m, hscan, hm.answersOf_eq (Buffer.toList_withCapacity _), hm.cursor_eq,
    hm.notices_eq rfl⟩

end Scans

/-! ### One operation -/

/-- What one operation does to a lexer: it pulls, or scans, or reads a lexeme and moves the
cursor only, or hands out and drops what was collected. -/
inductive Performed (source : Array UInt8) (l : Lexer) : Operation → Outcome → Lexer → Prop
  | pulled {op : Operation} {outcome : Outcome} {m : Lexer} (hop : op.pulls = true)
      (herrors : outcome.errors = errorsOf outcome.items)
      (h : YieldsAll source l outcome.items m) : Performed source l op outcome m
  | scanned {r : Except ScanError (Buffer Token)} {m : Lexer} (h : Scanned source l r m) :
      Performed source l .scan (.scanned r) m
  | moved (found : Lexeme) (cursor : Cursor) :
      Performed source l .scanLexeme (.lexeme found) { l with cursor }
  | released : Performed source l .release .released l.release
  | taken : Performed source l .takeDiagnostics (.taken l.diagnostics.toList) l.takeDiagnostics.2

section Performed

variable {source : Array UInt8} {l m : Lexer} {op : Operation} {outcome : Outcome}

theorem perform_spec (hc : ∀ n, Position.Countable source.toList n) (hl : Sound source l)
    (op : Operation) :
    ∃ outcome m, l.perform op = .ok (outcome, m) ∧ Sound source m ∧
      Performed source l op outcome m := by
  have hpull : op.pulls = true → ∃ outcome m, l.perform op = .ok (outcome, m) ∧
      Sound source m ∧ Performed source l op outcome m := by
    intro hop
    obtain ⟨outcome, m, hperform, -, herrors, hm, h⟩ := perform_yields hc hl hop
    exact ⟨outcome, m, hperform, hm, .pulled hop herrors h⟩
  cases op with
  | scan =>
    obtain ⟨r, m, hscan, hm, h⟩ := scan_scanned hc hl
    exact ⟨_, m, by rw [perform, hscan]; rfl, hm, .scanned h⟩
  | nextToken => exact hpull rfl
  | iterate count => exact hpull rfl
  | scanLexeme =>
    obtain ⟨found, m, hfound, hm⟩ := (scanLexeme_answers hl).exists_ok hc
    refine ⟨_, m, by rw [perform, hfound]; rfl, hm.sound, ?_⟩
    obtain ⟨⟨_, cursor⟩, _, h⟩ := bind_eq_ok.mp hfound
    cases h
    exact .moved _ cursor
  | release => exact ⟨_, _, rfl, sound_release hl, .released⟩
  | takeDiagnostics => exact ⟨_, _, rfl, sound_takeDiagnostics hl, .taken⟩

/-- An operation whose answer holds an error halts the lexer. -/
theorem Performed.halted_of_errors (h : Performed source l op outcome m)
    (he : outcome.errors ≠ []) : m.halted = true := by
  cases h with
  | pulled hop herrors h => exact h.halted (.inr (herrors ▸ he))
  | scanned h =>
    cases h with
    | finished hk hm => exact absurd rfl he
    | stopped hk hb hm hs => exact hs.halted
  | moved found cursor => exact absurd rfl he
  | released => exact absurd rfl he
  | taken => exact absurd rfl he

/-- Unless it starts over, a halted lexer stays so and hands out nothing. -/
theorem Performed.of_halted (h : Performed source l op outcome m) (hh : l.halted = true)
    (hop : op.resets = false) : (∀ item ∈ outcome.items, item = none) ∧ m.halted = true := by
  cases h with
  | pulled _ herrors h =>
    refine ⟨fun item hitem => ?_, h.halted (.inl hh)⟩
    have hitems := h.items_eq
    rw [outstanding, if_pos hh] at hitems
    rw [hitems] at hitem
    obtain ⟨i, _, rfl⟩ := List.mem_map.mp hitem
    rfl
  | scanned h => cases hop
  | moved found cursor => exact ⟨by simp [Outcome.items], hh⟩
  | released => cases hop
  | taken => exact ⟨by simp [Outcome.items], hh⟩

end Performed

/-! ### Halted lexers -/

section Halted

variable {source : Array UInt8} {l : Lexer}

theorem nextToken_of_halted (hh : l.halted = true) : l.nextToken = .ok (.ok none, l) := if_pos hh

theorem nextMany_of_halted (hh : l.halted = true) (count : Nat) :
    l.iter.nextMany count = .ok (List.replicate count none, l.iter) := by
  have hnext : l.iter.next = .ok (none, l.iter) := by
    rw [TokenIter.next, iter, nextToken_of_halted hh]
    rfl
  induction count with
  | zero => rfl
  | succ count ih => exact TokenIter.nextMany_succ hnext ih

theorem history_of_halted (hc : ∀ n, Position.Countable source.toList n) (hl : Sound source l)
    (hh : l.halted = true) {ops : List Operation} (hops : ∀ op ∈ ops, op.resets = false) :
    ∃ outcomes m, history ops l = .ok (outcomes, m) ∧ (Sound source m ∧ m.halted = true) ∧
      ∀ o ∈ outcomes, ∀ item ∈ o.items, item = none := by
  refine history_keeps (fun op hop l hl => ?_) ⟨hl, hh⟩
  obtain ⟨outcome, m, hperform, hm, h⟩ := perform_spec hc hl.1 op
  obtain ⟨hitems, hmh⟩ := h.of_halted hl.2 (hops op hop)
  exact ⟨outcome, m, hperform, ⟨hm, hmh⟩, hitems⟩

end Halted

/-! ### Pulling against scanning -/

/-- However the pulls of a fresh lexer are split, they hand out what a scan finds: its tokens,
then its error, then nothing. Pulled to the end, the lexer stands where the scan ends and has
collected the same, and its buffer is as it was. After an error, and until the lexer starts
over, every pull finds nothing and changes nothing. -/
theorem pulls_agree_with_scan (source : Array UInt8) (config : Config)
    (hs : source.size ≤ 2 ^ 32 - 2) (pulls : List Operation)
    (hpulls : ∀ op ∈ pulls, op.pulls = true) (before : List Operation) (op : Operation)
    (during : List Operation) (hduring : ∀ op ∈ during, op ≠ .scan ∧ op ≠ .release) :
    (∃ result scanned outcomes m,
      (withConfig source config).scan = .ok (result, scanned) ∧
      history pulls (withConfig source config) = .ok (outcomes, m) ∧
      outcomes.flatMap Outcome.items = (List.range (Operation.countPulls pulls)).map
        (fun i => (answersOf scanned.tokens.toList result)[i]?) ∧
      m.tokens = (withConfig source config).tokens ∧
      ((answersOf scanned.tokens.toList result).length < Operation.countPulls pulls →
        m.cursor = scanned.cursor ∧ m.diagnostics.toList = scanned.diagnostics.toList)) ∧
    ∃ earlier l outcome m outcomes n,
      history before (withConfig source config) = .ok (earlier, l) ∧
      l.perform op = .ok (outcome, m) ∧ history during m = .ok (outcomes, n) ∧
      (outcome.errors ≠ [] →
        (∀ o ∈ outcomes, ∀ item ∈ o.items, item = none) ∧ n.nextToken = .ok (.ok none, n) ∧
        ∀ count, n.iter.nextMany count = .ok (List.replicate count none, n.iter)) := by
  have hc := countable_of_size_le hs
  have hfresh := sound_withConfig source config
  refine ⟨?_, ?_⟩
  · obtain ⟨result, scanned, hscan, hanswers, hcursor, hdiagnostics⟩ :=
      scan_withConfig_eq config hs
    obtain ⟨outcomes, m, hhistory, hlength, hsound, hm⟩ := history_yields hc hfresh hpulls
    refine ⟨result, scanned, outcomes, m, hscan, hhistory, ?_, hm.tokens, ?_⟩
    · rw [hanswers, ← hlength]
      exact hm.items_eq
    · intro hlt
      rw [hanswers, ← hlength] at hlt
      have harrives := hm.arrives (.inl hlt)
      refine ⟨harrives.trans hcursor.symm, ?_⟩
      rw [← (arrived hsound (harrives.trans hm.finalCursor_eq.symm)).2, hdiagnostics]
      exact hm.finalDiagnostics_eq
  · obtain ⟨earlier, l, hbefore, hl⟩ := (history_answers hfresh before).exists_ok hc
    obtain ⟨outcome, m, hperform, hm, h⟩ := perform_spec hc hl.sound op
    obtain ⟨outcomes, n, hhistory, -⟩ := (history_answers hm during).exists_ok hc
    refine ⟨earlier, l, outcome, m, outcomes, n, hbefore, hperform, hhistory, fun he => ?_⟩
    have hresets : ∀ op ∈ during, op.resets = false := by
      intro op hop
      obtain ⟨hscan, hrelease⟩ := hduring op hop
      cases op <;> simp_all [Operation.resets]
    obtain ⟨outcomes', n', hhistory', ⟨-, hn⟩, hitems⟩ :=
      history_of_halted hc hm (h.halted_of_errors he) hresets
    rw [hhistory] at hhistory'
    cases hhistory'
    exact ⟨hitems, nextToken_of_halted hn, nextMany_of_halted hn⟩

/-- The source `1"2`, pulled by a call, an iterator and a call, and pulled up to its error. -/
theorem pulls_agree_with_scan_behind_quote :
    (∃ result scanned outcomes m,
      (withConfig #[0x31, 0x22, 0x32] .default).scan = .ok (result, scanned) ∧
      history [.nextToken, .iterate 2, .nextToken] (withConfig #[0x31, 0x22, 0x32] .default) =
        .ok (outcomes, m) ∧
      outcomes.flatMap Outcome.items =
        (List.range 4).map (fun i => (answersOf scanned.tokens.toList result)[i]?)) ∧
    ∃ outcome m outcomes n,
      (withConfig #[0x31, 0x22, 0x32] .default).perform (.iterate 2) = .ok (outcome, m) ∧
      outcome.errors ≠ [] ∧
      history [.scanLexeme, .nextToken, .takeDiagnostics] m = .ok (outcomes, n) ∧
      n.nextToken = .ok (.ok none, n) := by
  obtain ⟨⟨result, scanned, outcomes, m, hscan, hpulls, hitems, -⟩,
      earlier, l, outcome, m', outcomes', n, hbefore, hperform, hduring, hhalted⟩ :=
    pulls_agree_with_scan #[0x31, 0x22, 0x32] .default (by decide)
      [.nextToken, .iterate 2, .nextToken] (by decide) [] (.iterate 2)
      [.scanLexeme, .nextToken, .takeDiagnostics] (by decide)
  cases hbefore
  have herrors : ((withConfig #[0x31, 0x22, 0x32] .default).perform (.iterate 2)).toOption.map
      (fun answer => answer.1.errors.length) = some 1 := by decide +kernel
  rw [hperform] at herrors
  have hne : outcome.errors ≠ [] := by
    intro hnil
    simp [hnil, Except.toOption] at herrors
  exact ⟨⟨result, scanned, outcomes, m, hscan, hpulls, hitems⟩,
    outcome, m', outcomes', n, hperform, hne, hduring, (hhalted hne).2.1⟩

end Lexer
end ArithLexer
