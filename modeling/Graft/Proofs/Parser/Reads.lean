/-
Module: Graft.Proofs.Parser.Reads
Purpose: What a parser reads between two numbers of tokens, from its parts.
Main exports: ParserState.Stands, Parser.Reads, Parser.Reads.Chain, Part.Listed.row

Wherever a parser stands it is before one of the tokens of the source, and errors are only added.  What
a value says of the tokens behind it is known if no error was reported: a group that is not closed and
an item that is passed are reported, so without errors there are none.
-/
import Graft.Proofs.Parser.Skipping
import Graft.Proofs.Parser.Productions
import Graft.Proofs.Syntax.Parts

namespace Graft

open Token (KindAt)

variable {all : List Token} {i j : Nat}

/-- A parser stands before the token number `i` of a source, or behind the last one, and panics only
with an error reported. -/
structure ParserState.Stands (all : List Token) (i : Nat) (s : ParserState) : Prop where
  unread : s.unread = all.drop i
  inside : i ≤ all.length
  last? : s.last? = (all.take i).getLast?
  tidy : s.panicking = true → s.errors ≠ []

/-- The token is number `i`, or marks the end behind the last one. -/
def Token.PeekedAt (all : List Token) (i : Nat) (t : Token) : Prop :=
  all[i]? = some t ∨ all.length ≤ i ∧ t.kind = .endOfFile

namespace Token.PeekedAt

variable {t : Token}

theorem getElem? (h : PeekedAt all i t) (hkind : t.kind ≠ .endOfFile) : all[i]? = some t :=
  h.resolve_right fun hend => hkind hend.2

theorem of_lt (h : PeekedAt all i t) (hlt : i < all.length) : all[i]? = some t :=
  h.resolve_right fun hend => Nat.not_lt.2 hend.1 hlt

theorem kindAt (h : PeekedAt all i t) (hkind : t.kind ≠ .endOfFile) : KindAt all i t.kind :=
  ⟨t, h.getElem? hkind, rfl⟩

end Token.PeekedAt

namespace ParserState.Stands

variable {s t : ParserState}

/-- Parsing starts before the first token. -/
theorem ofText (source : SourceId) (text : String) :
    (ParserState.ofText source text).Stands (TokenStream.ofText text).tokens 0 :=
  ⟨rfl, Nat.zero_le _, rfl, nofun⟩

theorem ahead (h : s.Stands all i) (n : Nat) : Token.PeekedAt all (i + n) (s.ahead n) := by
  unfold ParserState.ahead
  rw [h.unread, List.getElem?_drop]
  cases ht : all[i + n]? with
  | some t => exact .inl ht
  | none => exact .inr ⟨List.getElem?_eq_none_iff.1 ht, rfl⟩

theorem current (h : s.Stands all i) : Token.PeekedAt all i s.current := h.ahead 0

theorem kindAt_of_check (h : s.Stands all i) {kind : TokenKind} (hkind : kind ≠ .endOfFile)
    (hcheck : s.check kind = true) : KindAt all i kind := by
  obtain rfl : s.current.kind = kind := Parser.kind_of_check hcheck
  exact h.current.kindAt hkind

theorem check_iff (h : s.Stands all i) {kind : TokenKind} (hkind : kind ≠ .endOfFile) :
    s.check kind = true ↔ KindAt all i kind := by
  refine ⟨h.kindAt_of_check hkind, fun ⟨t, ht, ht'⟩ => ?_⟩
  obtain rfl : s.current = t :=
    Option.some.inj ((h.current.of_lt (List.getElem?_eq_some_iff.1 ht).1).symm.trans ht)
  exact decide_eq_true ht'

theorem pass (h : s.Stands all i) {n : Nat} (hle : i + n ≤ all.length) : (s.pass n).Stands all (i + n) where
  unread := by rw [unread_pass, h.unread, List.drop_drop]
  inside := hle
  last? := by
    have hlast : ((all.drop i).take n).getLast?.or (all.take i).getLast? = (all.take (i + n)).getLast? := by
      rw [List.take_add, List.getLast?_append]
    change ((s.unread.take n).getLast? <|> s.last?) = _
    rw [h.unread, h.last?, ← hlast]
    cases ((all.drop i).take n).getLast? <;> rfl
  tidy := h.tidy

/-- Passing more tokens than there are leads to the end. -/
theorem exists_pass (h : s.Stands all i) (n : Nat) : ∃ j, i ≤ j ∧ (s.pass n).Stands all j := by
  by_cases hle : i + n ≤ all.length
  · exact ⟨i + n, Nat.le_add_right i n, h.pass hle⟩
  · refine ⟨i + (all.length - i), Nat.le_add_right _ _, ?_⟩
    have hinside := h.inside
    have hsame : s.pass n = s.pass (all.length - i) := by
      have hlength : s.unread.length = all.length - i := by rw [h.unread, List.length_drop]
      have htake : s.unread.take n = s.unread.take (all.length - i) := by
        rw [List.take_of_length_le (by omega), List.take_of_length_le (by omega)]
      have hdrop : s.unread.drop n = s.unread.drop (all.length - i) := by
        rw [List.drop_of_length_le (by omega), List.drop_of_length_le (by omega)]
      rw [ParserState.pass, ParserState.pass, htake, hdrop]
    rw [hsame]
    exact h.pass (by omega)

theorem report (h : s.Stands all i) (e : ParseError) : (s.report e).Stands all i :=
  ⟨h.unread, h.inside, h.last?, fun _ => by simp [ParserState.report]⟩

theorem record (h : s.Stands all i) (e : ParseError) : (s.record e).Stands all i := by
  unfold ParserState.record
  split
  · exact h
  · exact ⟨h.unread, h.inside, h.last?, fun _ => by simp [ParserState.report]⟩

theorem errors_record (h : s.Stands all i) (e : ParseError) : (s.record e).errors ≠ [] :=
  s.errors_record_of_tidy h.tidy e

theorem rewind (h : s.Stands all i) (start : t.Stands all j) : (s.rewind t).Stands all j :=
  ⟨start.unread, start.inside, start.last?, h.tidy⟩

theorem passDistance (h : s.Stands all i) (d : Skip.Distance) :
    ∃ j, i ≤ j ∧ (s.passDistance d).Stands all j := by
  obtain ⟨j, hle, hj⟩ := h.exists_pass d.count
  refine ⟨j, hle, ?_⟩
  unfold ParserState.passDistance
  dsimp only
  split
  · exact hj.record _
  · exact hj

theorem synchronize (h : s.Stands all i) : ∃ j, i ≤ j ∧ s.synchronize.Stands all j :=
  passDistance (s := { s with panicking := false }) ⟨h.unread, h.inside, h.last?, nofun⟩ _

/-- The end of the last token read is the end of the one before number `i`. -/
theorem spanFrom (h : s.Stands all i) (ordered : Token.InOrder all) {a b : Nat} {start : Span}
    (hstart : Span.Over all a b start) (hle : b ≤ i) : Span.Over all a i (s.spanFrom start) := by
  have hpos : 0 < i := Nat.lt_of_lt_of_le (Nat.lt_of_le_of_lt (Nat.zero_le a) hstart.lt) hle
  have hinside := h.inside
  obtain ⟨last, hat⟩ : ∃ last, all[i - 1]? = some last := ⟨_, List.getElem?_eq_getElem (by omega)⟩
  have hlast : s.last? = some last := by
    rw [h.last?, List.getLast?_eq_getElem?, List.length_take, Nat.min_eq_left hinside,
      List.getElem?_take, if_pos (by omega), hat]
  have hsingle : Span.Over all (i - 1) i last.span := by
    have hone := Span.Over.single hat
    rwa [Nat.sub_add_cancel hpos] at hone
  have hlt := hstart.lt
  have hmerge := hstart.merge ordered hsingle (by omega)
  rw [Nat.max_eq_right hle] at hmerge
  have hoffset : start.offset ≤ last.span.offset := by
    obtain ⟨first, _, hfirst, -, hoffset, -⟩ := hstart.bounds ordered
    rw [hoffset]
    exact (ordered.mono hfirst hat (by omega)).1
  rw [ParserState.spanFrom, hlast]
  dsimp only
  rwa [if_pos hoffset]

end ParserState.Stands

namespace Parser

variable {α β ι : Type}

/-- From the token number `i` on the parser comes to some later one, and if no error is reported until
there, the number of that token and the value satisfy `Q`. -/
def Reads (all : List Token) (i : Nat) (Q : Nat → α → Prop) (p : Parser α) : Prop :=
  ∀ s, s.Stands all i → Outcome
    (fun a t => ∃ j, i ≤ j ∧ t.Stands all j ∧ (t.errors = [] → s.errors = [] ∧ Q j a))
    (fun t => (∃ j, i ≤ j ∧ t.Stands all j) ∧ (t.errors = [] → s.errors = [])) p s

namespace Reads

variable {Q : Nat → α → Prop} {R : Nat → β → Prop} {p : Parser α} {f : α → Parser β}

theorem pure {a : α} (h : Q i a) : Reads all i Q (Pure.pure a) := fun _ hs =>
  .pure ⟨i, Nat.le_refl i, hs, fun herrors => ⟨herrors, h⟩⟩

theorem throw {e : ParseError} : Reads all i Q (MonadExcept.throw e) := fun _ hs =>
  .throw ⟨⟨i, Nat.le_refl i, hs⟩, id⟩

/-- One parser after another.  What the first one says is known at the end, if no error is reported. -/
theorem bind (hp : Reads all i Q p)
    (hf : ∀ j a, i ≤ j → j ≤ all.length → Reads all j (fun k b => Q j a → R k b) (f a)) :
    Reads all i R (p >>= f) := by
  refine fun s hs => ((hp s hs).mono (fun _ _ h => h) fun t h => h).bind fun a t _ ht => ?_
  obtain ⟨j, hle, hstands, hQ⟩ := ht
  refine (hf j a hle hstands.inside t hstands).mono (fun b u hu => ?_) fun u hu => ?_
  · obtain ⟨k, hle', hstands', hR⟩ := hu
    refine ⟨k, Nat.le_trans hle hle', hstands', fun herrors => ?_⟩
    obtain ⟨herrors, hR⟩ := hR herrors
    exact ⟨(hQ herrors).1, hR (hQ herrors).2⟩
  · obtain ⟨⟨k, hle', hstands'⟩, herrors⟩ := hu
    exact ⟨⟨k, Nat.le_trans hle hle', hstands'⟩, fun h => (hQ (herrors h)).1⟩

theorem mono {Q' : Nat → α → Prop} (hp : Reads all i Q p)
    (hQ : ∀ j a, i ≤ j → j ≤ all.length → Q j a → Q' j a) : Reads all i Q' p := by
  refine fun s hs => (hp s hs).mono (fun a t ht => ?_) fun _ h => h
  obtain ⟨j, hle, hstands, hQj⟩ := ht
  exact ⟨j, hle, hstands, fun h => ⟨(hQj h).1, hQ j a hle hstands.inside (hQj h).2⟩⟩

theorem map {g : α → β} (hp : Reads all i Q p)
    (hg : ∀ j a, i ≤ j → j ≤ all.length → Q j a → R j (g a)) : Reads all i R (g <$> p) := by
  refine fun s hs => (hp s hs).map fun a t ht => ?_
  obtain ⟨j, hle, hstands, hQj⟩ := ht
  exact ⟨j, hle, hstands, fun h => ⟨(hQj h).1, hg j a hle hstands.inside (hQj h).2⟩⟩

/-- Two things that are known of what a parser reads are known together. -/
theorem both {S : Nat → α → Prop} (hQ : Reads all i Q p) (hS : Reads all i S p) :
    Reads all i (fun j a => Q j a ∧ S j a) p := by
  refine fun s hs => .intro (fun a t hrun => ?_) fun e t hrun => (hQ s hs).of_error hrun
  obtain ⟨j, hij, hj, hQj⟩ := (hQ s hs).of_ok hrun
  obtain ⟨k, -, hk, hSk⟩ := (hS s hs).of_ok hrun
  -- the tokens that are left tell the number of the next one
  have hlength := congrArg List.length (hj.unread.symm.trans hk.unread)
  rw [List.length_drop, List.length_drop] at hlength
  have hinside := hj.inside
  have hinside' := hk.inside
  obtain rfl : j = k := by omega
  exact ⟨j, hij, hj, fun herrors => ⟨(hQj herrors).1, (hQj herrors).2, (hSk herrors).2⟩⟩

theorem ite {c : Prop} [Decidable c] {q : Parser α} (hp : c → Reads all i Q p)
    (hq : ¬c → Reads all i Q q) : Reads all i Q (if c then p else q) := fun s hs =>
  .ite (fun h => hp h s hs) fun h => hq h s hs

theorem fix {Q : ι → Nat → Nat → α → Prop} {step : (ι → Parser α) → ι → Parser α}
    (hstep : ∀ inner, (∀ x i, Reads all i (Q x i) (inner x)) → ∀ x i, Reads all i (Q x i) (step inner x))
    (x : ι) (i : Nat) : Reads all i (Q x i) (fix step x) := by
  have hunfold : ∀ rounds x i, Reads all i (Q x i) (unfold step rounds x) := by
    intro rounds
    induction rounds with
    | zero => exact fun x i s hs => ⟨⟨i, Nat.le_refl i, hs⟩, id⟩
    | succ rounds ih => exact hstep _ ih
  exact fun s hs => .fix fun rounds => hstep _ (hunfold rounds) x i s hs

/-! ### Single tokens -/

theorem get {f : ParserState → Parser α} (h : ∀ s, s.Stands all i → Reads all i Q (f s)) :
    Reads all i Q (MonadState.get >>= f) := fun s hs => .get (h s hs s hs)

theorem peek {f : Token → Parser α} (h : ∀ t, Token.PeekedAt all i t → Reads all i Q (f t)) :
    Reads all i Q (peek >>= f) := fun s hs => .peek (h _ hs.current s hs)

theorem check_iff {kind : TokenKind} {f : Bool → Parser α} (hkind : kind ≠ .endOfFile)
    (h : ∀ b, (b = true ↔ KindAt all i kind) → Reads all i Q (f b)) :
    Reads all i Q (check kind >>= f) := fun s hs =>
  .check (h _ (hs.check_iff hkind) s hs)

theorem check {kind : TokenKind} {f : Bool → Parser α} (hkind : kind ≠ .endOfFile)
    (h : ∀ b, (b = true → KindAt all i kind) → Reads all i Q (f b)) :
    Reads all i Q (check kind >>= f) := check_iff hkind fun b hb => h b hb.1

theorem kindAhead (n : Nat) {f : TokenKind → Parser α}
    (h : ∀ kind, (kind ≠ .endOfFile → KindAt all (i + n) kind) → Reads all i Q (f kind)) :
    Reads all i Q (kindAhead n >>= f) := fun s hs =>
  .kindAhead (h _ (fun hkind => (hs.ahead n).kindAt hkind) s hs)

theorem atEnd_of {f : Bool → Parser α} (h : ∀ b, (b = true → all.length ≤ i) → Reads all i Q (f b)) :
    Reads all i Q (atEnd >>= f) := fun s hs => .atEnd <| h _ (fun hend => by
      rw [ParserState.atEnd_iff, hs.unread] at hend
      exact List.drop_eq_nil_iff.1 hend) s hs

theorem atEnd {f : Bool → Parser α} (h : ∀ b, Reads all i Q (f b)) : Reads all i Q (atEnd >>= f) :=
  atEnd_of fun b _ => h b

/-- The next token is passed, whatever it is. -/
theorem advance : Reads all i (fun j t => Token.PeekedAt all i t ∧ (i < all.length → j = i + 1))
    advance := by
  refine fun s hs => .peek <| .modify <| .pure ?_
  by_cases hlt : i < all.length
  · exact ⟨i + 1, Nat.le_succ i, hs.pass hlt, fun h => ⟨h, hs.current, fun _ => rfl⟩⟩
  · obtain ⟨j, hle, hj⟩ := hs.exists_pass 1
    exact ⟨j, hle, hj, fun h => ⟨h, hs.current, fun h => absurd h hlt⟩⟩

theorem eat? {kind : TokenKind} (hkind : kind ≠ .endOfFile) {Q : Nat → Option Token → Prop}
    (found : ∀ t, all[i]? = some t → t.kind = kind → Q (i + 1) (some t)) (missing : Q i none) :
    Reads all i Q (eat? kind) := by
  refine fun s hs => .eat? (fun hcheck => ?_) fun _ => ⟨i, Nat.le_refl i, hs, fun h => ⟨h, missing⟩⟩
  have hat := hs.kindAt_of_check hkind hcheck
  have hcurrent := kind_of_check hcheck
  exact ⟨i + 1, Nat.le_succ i, hs.pass hat.lt, fun h => ⟨h, found _ (hs.current.of_lt hat.lt) hcurrent⟩⟩

theorem eat_or {kind : TokenKind} (hkind : kind ≠ .endOfFile) {f : Bool → Parser β}
    (found : KindAt all i kind → Reads all (i + 1) R (f true))
    (missing : ¬KindAt all i kind → Reads all i R (f false)) : Reads all i R (eat kind >>= f) := by
  refine fun s hs => .eat (fun hcheck => ?_) fun hcheck =>
    missing (fun hat => absurd ((hs.check_iff hkind).2 hat) (by simp [hcheck])) s hs
  have hat := hs.kindAt_of_check hkind hcheck
  refine (found hat _ (hs.pass hat.lt)).mono (fun b t ht => ?_) fun t ht => ?_
  · obtain ⟨j, hle, hstands, hR⟩ := ht
    exact ⟨j, Nat.le_of_succ_le hle, hstands, hR⟩
  · obtain ⟨⟨j, hle, hstands⟩, herrors⟩ := ht
    exact ⟨⟨j, Nat.le_of_succ_le hle, hstands⟩, herrors⟩

theorem eat {kind : TokenKind} (hkind : kind ≠ .endOfFile) {f : Bool → Parser β}
    (found : KindAt all i kind → Reads all (i + 1) R (f true)) (missing : Reads all i R (f false)) :
    Reads all i R (eat kind >>= f) := eat_or hkind found fun _ => missing

theorem expect {kind : TokenKind} (hkind : kind ≠ .endOfFile) :
    Reads all i (fun j t => j = i + 1 ∧ all[i]? = some t ∧ t.kind = kind) (expect kind) := by
  refine fun s hs => .expect (fun hcheck => ?_) fun _ => ⟨⟨i, Nat.le_refl i, hs⟩, id⟩
  have hat := hs.kindAt_of_check hkind hcheck
  have hcurrent := kind_of_check hcheck
  exact ⟨i + 1, Nat.le_succ i, hs.pass hat.lt, fun h => ⟨h, rfl, hs.current.of_lt hat.lt, hcurrent⟩⟩

theorem ident : Reads all i
    (fun j x => j = i + 1 ∧ ∃ t, all[i]? = some t ∧ t.kind = .identifier ∧ x = ⟨t.name, t.span⟩) ident := by
  refine .peek fun t ht => ?_
  dsimp only
  refine .ite (fun _ => .bind (Q := fun _ _ => False) (.peek fun _ _ => .throw) fun _ _ _ _ =>
    .bind advance fun _ _ _ _ => .pure fun _ h => h.elim) fun hkind => .bind advance fun j _ _ _ => .pure ?_
  rintro ⟨hpeeked, hnext⟩
  have hkind' : t.kind = .identifier := Decidable.not_not.1 hkind
  have hat := ht.kindAt (by rw [hkind']; decide)
  exact ⟨hnext hat.lt, t, ht.of_lt hat.lt, hkind', rfl⟩

/-- A token that serves as a name. -/
theorem nameToken : Reads all i (fun j x => i < all.length → j = i + 1 ∧ Span.Over all i (i + 1) x.span)
    nameToken :=
  advance.bind fun _ _ _ _ => .pure fun h hlt => ⟨h.2 hlt, .single (h.1.of_lt hlt)⟩

theorem failAt (cause : String → ParseCause) : Reads all i Q (failAt cause) := .peek fun _ _ => .throw

theorem failExpecting (what : String) : Reads all i Q (failExpecting what) := .get fun _ _ => .throw

/-- A span up to the last token read starts where it is said to and ends before the next one. -/
theorem spanFrom (ordered : Token.InOrder all) (start : Span) : Reads all i
    (fun j span => j = i ∧ ∀ a b, Span.Over all a b start → b ≤ i → Span.Over all a i span)
    (spanFrom start) := fun _ hs => .spanFrom <| .pure ⟨i, Nat.le_refl i, hs, fun h =>
      ⟨h, rfl, fun _ _ hstart hle => hs.spanFrom ordered hstart hle⟩⟩

/-! ### Groups and searches -/

/-- A distance is passed, and if no error is reported it ends where it should. -/
theorem passDistance {s : ParserState} (hs : s.Stands all i) (d : Skip.Distance)
    (hcount : d.count ≤ s.unread.length) : (s.passDistance d).Stands all (i + d.count) ∧
      ((s.passDistance d).errors = [] → s.errors = [] ∧ d = .closed d.count) := by
  have hlength : s.unread.length = all.length - i := by rw [hs.unread, List.length_drop]
  have hinside := hs.inside
  have hpass := hs.pass (show i + d.count ≤ all.length by omega)
  obtain ⟨count, unclosed⟩ := d
  unfold ParserState.passDistance
  dsimp only at hpass ⊢
  cases unclosed with
  | true => exact ⟨hpass.record _, fun h => absurd h (hpass.errors_record _)⟩
  | false => exact ⟨hpass, fun h => ⟨h, rfl⟩⟩

/-- A group is passed up to the bracket that closes it. -/
theorem skipGroup : Reads all i
    (fun j _ => i < j ∧ Skip.groupLength? 0 (all.drop i) = some (j - i)) skipGroup := by
  refine fun s hs => .modify <| .pure ?_
  unfold ParserState.skipGroup
  cases hcount : Skip.groupLength? 0 s.unread with
  | none =>
      obtain ⟨hstands, herrors⟩ := passDistance hs ⟨s.unread.length, true⟩ (Nat.le_refl _)
      exact ⟨_, Nat.le_add_right _ _, hstands, fun h => absurd (herrors h).2 nofun⟩
  | some count =>
      obtain ⟨hpos, hle⟩ := Skip.groupLength?_bounds hcount
      rw [hs.unread, List.length_drop] at hle
      refine ⟨i + count, Nat.le_add_right _ _, hs.pass (by omega), fun h => ⟨h, by omega, ?_⟩⟩
      rw [← hs.unread, hcount, Nat.add_sub_cancel_left]

/-- Tokens are passed up to a terminator or the end of the group. -/
theorem skipUntil (terminators : List TokenKind) : Reads all i
    (fun j _ => Skip.untilLength terminators 0 (all.drop i) = .closed (j - i)) (skipUntil terminators) := by
  refine fun s hs => .modify <| .pure ?_
  obtain ⟨hstands, herrors⟩ := passDistance hs _ (Skip.count_untilLength_le terminators 0 s.unread)
  refine ⟨_, Nat.le_add_right _ _, hstands, fun h => ⟨(herrors h).1, ?_⟩⟩
  dsimp only
  rw [Nat.add_sub_cancel_left, ← hs.unread]
  exact (herrors h).2

/-- What is read only after errors is not said to be anything. -/
theorem recovering (fallback : α) (hp : Reads all i Q p) : Reads all i Q (recovering fallback p) := by
  refine fun s hs => Outcome.tryCatch (F := fun t => ∃ j, i ≤ j ∧ t.Stands all j)
    ((hp s hs).mono (fun _ _ h => h) fun _ h => h.1) fun e t _ ht => ?_
  obtain ⟨j, hle, hj⟩ := ht
  obtain ⟨k, hle', hk⟩ := (hj.record e).synchronize
  refine .modify <| .pure ⟨k, Nat.le_trans hle hle', hk, fun h => absurd h ?_⟩
  have herrors : Stable fun s : ParserState => s.errors ≠ [] :=
    ⟨fun _ h => h, fun _ _ => by simp [ParserState.report], fun _ _ h => h, fun h _ => h⟩
  exact herrors.synchronize (hj.errors_record e)

/-- An expression is read as a constant that ends before a terminator, or else all up to a terminator is
passed.  If there is nothing to pass that is reported. -/
theorem expr {P Q : Nat → Expr → Prop} {terminators : List TokenKind} (hend : .endOfFile ∉ terminators)
    (constant : Reads all i P additive)
    (found : ∀ j kind e, kind ∈ terminators → KindAt all j kind → P j e → Q j e)
    (passed : ∀ j span, Token.UpTo all terminators i j → (Token.InOrder all → Span.Over all i j span) →
      Q j (.unsupported span)) : Reads all i Q (expr terminators) := by
  refine fun s hs => .get ?_
  have hattempt : Outcome (fun e? t => ∃ j, i ≤ j ∧ t.Stands all j ∧
      (t.errors = [] → s.errors = [] ∧ ∀ e ∈ e?, P j e)) (fun _ => False) (attempt additive) s := by
    refine Outcome.tryCatch (F := fun t => (∃ j, i ≤ j ∧ t.Stands all j) ∧ (t.errors = [] → s.errors = []))
      ((constant s hs).map fun e t ht => ?_) fun e t _ ht => ?_
    · obtain ⟨j, hle, hj, h⟩ := ht
      exact ⟨j, hle, hj, fun herrors => ⟨(h herrors).1, fun e' he' => by cases he'; exact (h herrors).2⟩⟩
    · obtain ⟨⟨j, hle, hj⟩, h⟩ := ht
      exact .pure ⟨j, hle, hj, fun herrors => ⟨h herrors, by simp⟩⟩
  refine (hattempt.mono (fun _ _ h => h) fun _ h => h.elim).bind fun e? t _ ht => ?_
  obtain ⟨j, hle, hj, h⟩ := ht
  extract_lets rest
  -- from the start on tokens are passed
  have hrest : Outcome (fun e u => ∃ k, i ≤ k ∧ u.Stands all k ∧ (u.errors = [] → s.errors = [] ∧ Q k e))
      (fun u => (∃ k, i ≤ k ∧ u.Stands all k) ∧ (u.errors = [] → s.errors = [])) (rest ()) t := by
    refine .modify <| ((skipUntil terminators _ (hj.rewind hs)).mono (fun _ _ h => h) fun u hu =>
      ⟨hu.1, fun herrors => (h (hu.2 herrors)).1⟩).bind fun _ u _ hu => .get ?_
    obtain ⟨k, hik, hk, huntil⟩ := hu
    refine .ite (fun _ => ?_) fun hmoved => ?_
    · refine .modify <| .pure ⟨k, hik, hk.report _, fun herrors => absurd herrors ?_⟩
      simp [ParserState.report]
    · have hlt : i < k := by
        refine Nat.lt_of_le_of_ne hik fun heq => hmoved ?_
        rw [hk.unread, hs.unread, heq]
      have hsingle := Span.Over.single (hs.current.of_lt (Nat.lt_of_lt_of_le hlt hk.inside))
      refine .pure ⟨k, hik, hk, fun herrors => ?_⟩
      obtain ⟨hbefore, huntil⟩ := huntil herrors
      exact ⟨(h hbefore).1, passed k _ ⟨hik, huntil⟩ fun ordered => hk.spanFrom ordered hsingle hlt⟩
  cases e? with
  | none => exact hrest
  | some e =>
      refine .peek <| .ite (fun hmem => .pure ⟨j, hle, hj, fun herrors => ⟨(h herrors).1, ?_⟩⟩) fun _ =>
        hrest
      exact found j _ e hmem (hj.current.kindAt fun heq => hend (heq ▸ hmem)) ((h herrors).2 e rfl)

/-- Reading on from a state: the parser stands at the token number `i` or later, and errors have only
been added. -/
def ReadOn (all : List Token) (i : Nat) (s t : ParserState) : Prop :=
  (∃ j, i ≤ j ∧ t.Stands all j) ∧ (t.errors = [] → s.errors = [])

theorem ReadOn.pass {s t : ParserState} (h : ReadOn all i s t) (n : Nat) : ReadOn all i s (t.pass n) := by
  obtain ⟨⟨j, hle, hj⟩, herrors⟩ := h
  obtain ⟨k, hle', hk⟩ := hj.exists_pass n
  exact ⟨⟨k, Nat.le_trans hle hle', hk⟩, herrors⟩

/-- Wherever reading on leads to, it goes on from there. -/
theorem ReadOn.of_reads {s t u : ParserState} {g : ParserState → ParserState} {Q : Nat → Nat → PUnit → Prop}
    (h : ReadOn all i s t) (hg : ∀ j, Reads all j (Q j) (MonadState.modifyGet fun t => (⟨⟩, g t)))
    (hu : g t = u) : ReadOn all i s u := by
  obtain ⟨⟨j, hle, hj⟩, herrors⟩ := h
  obtain ⟨k, hle', hk, hQ⟩ := hg j t hj
  subst hu
  exact ⟨⟨k, Nat.le_trans hle hle', hk⟩, fun h => herrors (hQ h).1⟩

theorem bodyInvariant_readOn (s : ParserState) : BodyInvariant (ReadOn all i s) fun _ => True where
  pass h _ := h.pass 1
  report e h := by
    obtain ⟨⟨j, hle, hj⟩, -⟩ := h
    exact ⟨⟨j, hle, hj.report e⟩, fun h => absurd h (by simp [ParserState.report])⟩
  rewind h hstart := by
    obtain ⟨⟨j, -, hj⟩, herrors⟩ := h
    obtain ⟨⟨k, hle, hk⟩, -⟩ := hstart
    exact ⟨⟨k, hle, hj.rewind hk⟩, herrors⟩
  passGroup h _ := h.of_reads (fun _ => skipGroup) rfl
  passUntil terminators h := h.of_reads (fun _ => skipUntil terminators) rfl
  ahead _ _ := trivial

/-- A production of which nothing is known but that it reads on. -/
theorem of_keeps (hp : ∀ s, Keeps (ReadOn all i s) p) : Reads all i (fun _ _ => True) p := by
  refine fun s hs => (hp s s ⟨⟨i, Nat.le_refl i, hs⟩, id⟩).mono (fun _ t ht => ?_) fun _ h => h
  obtain ⟨⟨⟨j, hle, hj⟩, herrors⟩, -⟩ := ht
  exact ⟨j, hle, hj, fun h => ⟨herrors h, trivial⟩⟩

/-! ### Repetition -/

/-- The values that an item yields one after another, between two numbers of tokens. -/
inductive Chain (Q : Nat → Nat → Option α → Prop) : Nat → Nat → List α → Prop where
  | done {i j : Nat} (le : i ≤ j) (last : Q i j none) : Chain Q i j []
  | more {i k j : Nat} {a : α} {rest : List α} (le : i ≤ k) (first : Q i k (some a))
      (later : Chain Q k j rest) : Chain Q i j (a :: rest)

theorem many {Q : Nat → Nat → Option α → Prop} {item : Parser (Option α)}
    (hitem : ∀ i, Reads all i (Q i) item) (i : Nat) :
    Reads all i (fun j list => Chain Q i j list) (many item) := by
  refine .fix (Q := fun _ i j list => Chain Q i j list) (fun rest hrest _ i => ?_) () i
  refine (hitem i).bind fun j a? hle _ => ?_
  cases a? with
  | none => exact .pure fun h => .done hle h
  | some a => exact (hrest () j).bind fun _ _ _ _ => .pure fun hlater hfirst => .more hle hfirst hlater

theorem separated {P : Nat → Nat → α → Prop} {item : Parser α} (hitem : ∀ i, Reads all i (P i) item)
    (i : Nat) : Reads all i (fun j list => Part.Listed all .comma P i j list) (separated item) := by
  refine .fix (Q := fun _ i j list => Part.Listed all .comma P i j list) (fun rest hrest _ i => ?_) () i
  refine (hitem i).bind fun j a _ _ => .eat (by decide) (fun hcomma => .ite (fun _ => ?_) (absurd rfl))
    (.ite nofun fun _ => .pure .single)
  exact (hrest () (j + 1)).bind fun _ _ _ _ => .pure fun hlater hfirst => .cons hfirst hcomma hlater

theorem whenever_eat {kind : TokenKind} (hkind : kind ≠ .endOfFile) {Q : Nat → Option α → Prop}
    {item : Parser α} (hitem : KindAt all i kind → Reads all (i + 1) (fun j a => Q j (some a)) item)
    (hnone : Q i none) : Reads all i Q (whenever (Parser.eat kind) item) :=
  .eat hkind (fun h => .ite (fun _ => (hitem h).map fun _ _ _ _ h => h) (absurd rfl))
    (.ite nofun fun _ => .pure hnone)

theorem whenever_check {kind : TokenKind} (hkind : kind ≠ .endOfFile) {Q : Nat → Option α → Prop}
    {item : Parser α} (hitem : KindAt all i kind → Reads all i (fun j a => Q j (some a)) item)
    (hnone : Q i none) : Reads all i Q (whenever (Parser.check kind) item) :=
  .check hkind fun _ hfound => .ite (fun h => (hitem (hfound h)).map fun _ _ _ _ h => h)
    fun _ => .pure hnone

end Reads

/-! ### Rows -/

theorem Reads.Chain.le {Q : Nat → Nat → Option α → Prop} {list : List α} (h : Chain Q i j list) :
    i ≤ j := by
  induction h with
  | done le _ => exact le
  | more le _ _ ih => exact Nat.le_trans le ih

/-- Each value of a repetition was yielded by one of its items. -/
theorem Reads.Chain.exists_of_mem {Q : Nat → Nat → Option α → Prop} {list : List α}
    (h : Chain Q i j list) {a : α} (ha : a ∈ list) : ∃ b c, i ≤ b ∧ c ≤ j ∧ Q b c (some a) := by
  induction h with
  | done _ _ => cases ha
  | more le first later ih =>
      rcases List.mem_cons.1 ha with rfl | ha
      · exact ⟨_, _, Nat.le_refl _, later.le, first⟩
      · obtain ⟨b, c, hb, hc, hQ⟩ := ih ha
        exact ⟨b, c, Nat.le_trans le hb, hc, hQ⟩

/-- A repetition yields a row if each of its items stands where it was read. -/
theorem Reads.Chain.row {Q : Nat → Nat → Option α → Prop} {f : α → Part} {list : List α}
    (h : Chain Q i j list)
    (hQ : ∀ i j a, Q i j (some a) → ∃ b c, i ≤ b ∧ c ≤ j ∧ Part.At all b c (f a)) :
    Part.Row all i j (list.map f) := by
  induction h with
  | done le _ => exact .nil le
  | more le first later ih =>
      obtain ⟨b, c, hb, hc, hat⟩ := hQ _ _ _ first
      exact .cons hb hat (ih.widen hc (Nat.le_refl _))

end Parser

namespace Part.Listed

open Parser.Reads (Chain)

variable {α : Type} {separator : TokenKind} {P : Nat → Nat → α → Prop} {list : List α}

/-- A list yields a row if each of its items stands where it was read, between separators or the ends. -/
theorem row {f : α → Part} (h : Listed all separator P i j list)
    (hP : ∀ a b x, P a b x → (a = i ∨ 0 < a ∧ KindAt all (a - 1) separator) →
      (b = j ∨ KindAt all b separator) → ∃ c d, a ≤ c ∧ d ≤ b ∧ Part.At all c d (f x)) :
    Part.Row all i j (list.map f) := by
  induction h with
  | nil => exact .nil (Nat.le_refl _)
  | single item =>
      obtain ⟨c, d, hc, hd, hat⟩ := hP _ _ _ item (.inl rfl) (.inl rfl)
      exact hat.row.widen hc hd
  | @cons i k j a rest first comma _ ih =>
      obtain ⟨c, d, hc, hd, hat⟩ := hP _ _ _ first (.inl rfl) (.inr comma)
      have hrest := ih fun b c x hx hstart hend => hP b c x hx (.inr ?_) hend
      · exact .cons hc hat (hrest.widen (Nat.le_succ_of_le hd) (Nat.le_refl j))
      · rcases hstart with rfl | hstart
        · exact ⟨Nat.succ_pos k, comma⟩
        · exact hstart

/-- A first item, and then as many as follow behind separators. -/
theorem ofChain {Q : Nat → Nat → Option α → Prop} {k : Nat} {a : α} (first : P i k a)
    (more : Chain Q k j list) (hsome : ∀ i j x, Q i j (some x) → KindAt all i separator ∧ P (i + 1) j x)
    (hnone : ∀ i j, Q i j none → j = i ∨ KindAt all i separator ∧ j = i + 1) :
    Listed all separator P i j (a :: list) := by
  induction more generalizing i a with
  | done _ last =>
      rcases hnone _ _ last with rfl | ⟨comma, rfl⟩
      · exact .single first
      · exact .cons first comma .nil
  | more _ next _ ih =>
      obtain ⟨comma, hnext⟩ := hsome _ _ _ next
      exact .cons first comma (ih hnext)

theorem mono {R : Nat → Nat → α → Prop} (h : Listed all separator P i j list)
    (hP : ∀ a b x, P a b x → R a b x) : Listed all separator R i j list := by
  induction h with
  | nil => exact .nil
  | single item => exact .single (hP _ _ _ item)
  | cons first between _ ih => exact .cons (hP _ _ _ first) between ih

end Part.Listed

end Graft
