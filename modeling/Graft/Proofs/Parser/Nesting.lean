/-
Module: Graft.Proofs.Parser.Nesting
Purpose: How far tokens are passed whose brackets are properly nested.
Main exports: Nested, Loose, Skip.groupLength?_group, Skip.untilLength_loose, Skip.resumeLength_loose

Groups are passed by counting brackets of all kinds together.  Where brackets are properly nested the
count is right: a group ends with the bracket that closes it, and nothing that is passed reaches beyond
a closing brace whose group was open before.
-/
import Graft.Parser.Skip

namespace Graft

namespace TokenKind

/-- The bracket that closes the groups which a bracket opens. -/
def closer? : TokenKind → Option TokenKind
  | .leftParen => some .rightParen
  | .leftBracket => some .rightBracket
  | .leftBrace => some .rightBrace
  | _ => none

/-- An opening or closing brace. -/
def isBrace : TokenKind → Bool
  | .leftBrace | .rightBrace => true
  | _ => false

theorem isOpener_of_closer? {k c : TokenKind} (h : k.closer? = some c) :
    (k.isOpener = true ∧ k.isCloser = false) ∧ c.isOpener = false ∧ c.isCloser = true := by
  cases k <;> cases h <;> decide

theorem closer?_eq_none {k : TokenKind} : k.closer? = none ↔ k.isOpener = false := by
  cases k <;> decide

theorem closer?_eq_rightBrace {k c : TokenKind} (h : k.closer? = some c) :
    c = .rightBrace ↔ k = .leftBrace := by
  cases k <;> cases h <;> decide

end TokenKind

/-! ### Nesting -/

/-- Tokens whose brackets are properly nested. -/
inductive Nested : List Token → Prop where
  | nil : Nested []
  | plain {t : Token} {rest : List Token} (notOpener : t.kind.isOpener = false)
      (notCloser : t.kind.isCloser = false) (later : Nested rest) : Nested (t :: rest)
  | group {opening closing : Token} {inner rest : List Token}
      (closes : opening.kind.closer? = some closing.kind) (inside : Nested inner) (later : Nested rest) :
      Nested (opening :: (inner ++ closing :: rest))

/-- Tokens that close no brace but those that they open: properly nested groups, and between them
tokens of which some may close parentheses or brackets that are open before. -/
inductive Loose : List Token → Prop where
  | nil : Loose []
  | single {t : Token} {rest : List Token} (notOpener : t.kind.isOpener = false)
      (notBrace : t.kind ≠ .rightBrace) (later : Loose rest) : Loose (t :: rest)
  | group {opening closing : Token} {inner rest : List Token}
      (closes : opening.kind.closer? = some closing.kind) (inside : Nested inner) (later : Loose rest) :
      Loose (opening :: (inner ++ closing :: rest))

variable {t : Token} {u v inner behind : List Token}

theorem Nested.append (hu : Nested u) (hv : Nested v) : Nested (u ++ v) := by
  induction hu with
  | nil => exact hv
  | plain notOpener notCloser _ ih => exact .plain notOpener notCloser ih
  | group closes inside _ _ ih =>
      rw [List.cons_append, List.append_assoc, List.cons_append]
      exact .group closes inside ih

theorem Nested.loose (hu : Nested u) : Loose u := by
  induction hu with
  | nil => exact .nil
  | plain notOpener notCloser _ ih =>
      refine .single notOpener ?_ ih
      rintro hkind
      rw [hkind] at notCloser
      cases notCloser
  | group closes inside _ _ ih => exact .group closes inside ih

/-- Nesting is seen from the classes of the tokens. -/
theorem Nested.congr (hu : Nested u) : ∀ {v}, v.map Token.kind = u.map Token.kind → Nested v := by
  induction hu with
  | nil =>
      intro v hv
      rw [List.map_eq_nil_iff.1 hv]
      exact .nil
  | plain notOpener notCloser _ ih =>
      intro v hv
      obtain ⟨t, rest, rfl, ht, hrest⟩ := List.map_eq_cons_iff.1 hv
      exact .plain (ht ▸ notOpener) (ht ▸ notCloser) (ih hrest)
  | group closes _ _ ih ih' =>
      intro v hv
      obtain ⟨opening, more, rfl, hopening, hmore⟩ := List.map_eq_cons_iff.1 hv
      rw [List.map_append, List.map_cons] at hmore
      obtain ⟨inner, more', rfl, hinner, hmore'⟩ := List.map_eq_append_iff.1 hmore
      obtain ⟨closing, rest, rfl, hclosing, hrest⟩ := List.map_eq_cons_iff.1 hmore'
      refine .group ?_ (ih hinner) (ih' hrest)
      rw [hopening, hclosing]
      exact closes

namespace Nested

/-- The tokens close the groups that are open before, of which the innermost one comes first with the
bracket that closes it, and then those that they open. -/
def closes (stack : List TokenKind) : List Token → Bool
  | [] => stack.isEmpty
  | t :: rest =>
      match t.kind.closer? with
      | some closer => closes (closer :: stack) rest
      | none =>
          if t.kind.isCloser then stack.head? = some t.kind && closes stack.tail rest
          else closes stack rest

/-- Tokens behind which the brackets of the stack close one after another. -/
def Behind : List TokenKind → List Token → Prop
  | [], u => Nested u
  | closer :: stack, u => ∃ inner closing rest, u = inner ++ closing :: rest ∧ closing.kind = closer ∧
      Nested inner ∧ Behind stack rest

theorem Behind.prepend {stack : List TokenKind} (hu : ∀ {v}, Nested v → Nested (u ++ v))
    (hv : Behind stack v) : Behind stack (u ++ v) := by
  cases stack with
  | nil => exact hu hv
  | cons closer stack =>
      obtain ⟨inner, closing, rest, rfl, hclosing, hinner, hrest⟩ := hv
      exact ⟨u ++ inner, closing, rest, (List.append_assoc ..).symm, hclosing, hu hinner, hrest⟩

theorem behind_of_closes {stack : List TokenKind} (h : closes stack u = true) : Behind stack u := by
  induction u generalizing stack with
  | nil =>
      rw [closes, List.isEmpty_iff] at h
      rw [h]
      exact Nested.nil
  | cons t rest ih =>
      rw [closes] at h
      cases hcloser : t.kind.closer? with
      | some closer =>
          simp only [hcloser] at h
          obtain ⟨inner, closing, more, rfl, rfl, hinner, hmore⟩ := ih h
          have hgroup := hmore.prepend (u := t :: (inner ++ [closing])) fun {v} hv => by
            simpa using Nested.group hcloser hinner hv
          simpa using hgroup
      | none =>
          simp only [hcloser] at h
          by_cases hclose : t.kind.isCloser = true
          · rw [if_pos hclose, Bool.and_eq_true, decide_eq_true_eq] at h
            obtain ⟨stack, rfl⟩ := List.head?_eq_some_iff.1 h.1
            exact ⟨[], t, rest, rfl, rfl, .nil, ih h.2⟩
          · rw [if_neg hclose] at h
            exact (ih h).prepend (u := [t])
              (.plain (TokenKind.closer?_eq_none.1 hcloser) (Bool.eq_false_iff.2 hclose))

theorem closes_append (hu : Nested u) : ∀ stack v, closes stack (u ++ v) = closes stack v := by
  induction hu with
  | nil => exact fun _ _ => rfl
  | @plain t rest notOpener notCloser _ ih =>
      intro stack v
      rw [List.cons_append, closes, TokenKind.closer?_eq_none.2 notOpener]
      dsimp only
      rw [notCloser, if_neg Bool.false_ne_true, ih]
  | @group opening closing inner rest hcloses _ _ ih ih' =>
      intro stack v
      obtain ⟨-, notOpener, hcloser⟩ := TokenKind.isOpener_of_closer? hcloses
      rw [List.cons_append, closes, hcloses, List.append_assoc, List.cons_append]
      dsimp only
      rw [ih, closes, TokenKind.closer?_eq_none.2 notOpener]
      dsimp only
      rw [hcloser, if_pos rfl, ih']
      simp

/-- Whether brackets are properly nested is found out by one pass with a stack. -/
theorem iff_closes : Nested u ↔ closes [] u = true := by
  refine ⟨fun hu => ?_, behind_of_closes⟩
  rw [← List.append_nil u, hu.closes_append]
  rfl

instance : DecidablePred Nested := fun _ => decidable_of_iff _ iff_closes.symm

end Nested

namespace Loose

theorem append (hu : Loose u) (hv : Loose v) : Loose (u ++ v) := by
  induction hu with
  | nil => exact hv
  | single notOpener notBrace _ ih => exact .single notOpener notBrace ih
  | group closes inside _ ih =>
      rw [List.cons_append, List.append_assoc, List.cons_append]
      exact .group closes inside ih

theorem ne_rightBrace (h : Loose (t :: u)) : t.kind ≠ .rightBrace := by
  cases h with
  | single _ notBrace _ => exact notBrace
  | group closes _ _ =>
      rintro hkind
      rw [hkind] at closes
      cases closes

/-- Any token but a brace may be passed by itself. -/
theorem passed (h : Loose (t :: u)) (notBrace : t.kind ≠ .leftBrace) : Loose u := by
  cases h with
  | single _ _ later => exact later
  | group closes inside later =>
      have notOpener := (TokenKind.isOpener_of_closer? closes).2.1
      refine inside.loose.append (.single notOpener ?_ later)
      rw [Ne, TokenKind.closer?_eq_rightBrace closes]
      exact notBrace

/-- What an opening bracket starts is a group. -/
theorem exists_group (h : Loose (t :: u)) (opener : t.kind.isOpener = true) :
    ∃ inner closing rest, u = inner ++ closing :: rest ∧ t.kind.closer? = some closing.kind ∧
      Nested inner ∧ Loose rest := by
  cases h with
  | single notOpener _ _ =>
      rw [opener] at notOpener
      cases notOpener
  | group closes inside later => exact ⟨_, _, _, rfl, closes, inside, later⟩

end Loose

/-! ### Distances -/

namespace Skip

theorem depthAfter_of_closer? {opening closing : Token}
    (closes : opening.kind.closer? = some closing.kind) (depth : Nat) :
    depthAfter depth opening = depth + 1 ∧ depthAfter (depth + 1) closing = depth := by
  obtain ⟨⟨hopener, -⟩, notOpener, hcloser⟩ := TokenKind.isOpener_of_closer? closes
  simp [depthAfter, hopener, notOpener, hcloser]

theorem depthAfter_plain (notOpener : t.kind.isOpener = false) (notCloser : t.kind.isCloser = false)
    (depth : Nat) : depthAfter depth t = depth := by
  simp [depthAfter, notOpener, notCloser]

/-- Inside brackets nested tokens are passed. -/
theorem groupLength?_nested (h : Nested inner) : ∀ (depth : Nat) (rest : List Token),
    groupLength? (depth + 1) (inner ++ rest) =
      (groupLength? (depth + 1) rest).map (· + inner.length) := by
  induction h with
  | nil =>
      intro depth rest
      simp
  | @plain t more notOpener notCloser _ ih =>
      intro depth rest
      rw [List.cons_append, groupLength?, depthAfter_plain notOpener notCloser, if_neg (by omega), ih,
        Option.map_map]
      rfl
  | @group opening closing inside more closes _ _ ih ih' =>
      intro depth rest
      obtain ⟨hopening, hclosing⟩ := depthAfter_of_closer? closes (depth + 1)
      rw [List.cons_append, List.append_assoc, List.cons_append, groupLength?, hopening,
        if_neg (by omega), ih, groupLength?, hclosing, if_neg (by omega), ih']
      simp only [Option.map_map]
      congr 1
      funext n
      simp only [Function.comp, List.length_cons, List.length_append]
      omega

/-- A group is passed up to the bracket that closes it. -/
theorem groupLength?_group {opening closing : Token} {rest : List Token}
    (closes : opening.kind.closer? = some closing.kind) (inside : Nested inner) :
    groupLength? 0 (opening :: (inner ++ closing :: rest)) = some (inner.length + 2) := by
  obtain ⟨hopening, hclosing⟩ := depthAfter_of_closer? closes 0
  rw [groupLength?, hopening, if_neg (by omega), groupLength?_nested inside, groupLength?, hclosing,
    if_pos rfl]
  simp only [Option.map_some]
  congr 1
  omega

@[simp] theorem after_closed (m n : Nat) : Distance.after m (.closed n) = .closed (m + n) := rfl

@[simp] theorem after_after (m n : Nat) (d : Distance) :
    Distance.after m (.after n d) = .after (m + n) d := by
  simp [Distance.after, Nat.add_assoc]

variable {terminators : List TokenKind}

/-- Inside brackets nested tokens are passed whatever the terminators are. -/
theorem untilLength_nested (h : Nested inner) : ∀ (depth : Nat) (rest : List Token),
    untilLength terminators (depth + 1) (inner ++ rest) =
      .after inner.length (untilLength terminators (depth + 1) rest) := by
  have hinside : ∀ (t : Token) (depth : Nat) (rest : List Token),
      untilLength terminators (depth + 1) (t :: rest) =
        .after 1 (untilLength terminators (depthAfter (depth + 1) t) rest) := fun t depth rest => by
    rw [untilLength, if_neg (by omega)]
  induction h with
  | nil =>
      intro depth rest
      simp [Distance.after]
  | @plain t more notOpener notCloser _ ih =>
      intro depth rest
      rw [List.cons_append, hinside, depthAfter_plain notOpener notCloser, ih, after_after,
        List.length_cons, Nat.add_comm]
  | @group opening closing inside more closes _ _ ih ih' =>
      intro depth rest
      obtain ⟨hopening, hclosing⟩ := depthAfter_of_closer? closes (depth + 1)
      rw [List.cons_append, List.append_assoc, List.cons_append, hinside, hopening, ih, hinside, hclosing,
        ih']
      simp only [after_after, List.length_cons, List.length_append]
      congr 1
      omega

/-- A group that no terminator opens is passed. -/
theorem untilLength_group {opening closing : Token} {rest : List Token}
    (closes : opening.kind.closer? = some closing.kind) (inside : Nested inner)
    (notEnd : opening.kind ∉ terminators) :
    untilLength terminators 0 (opening :: (inner ++ closing :: rest)) =
      .after (inner.length + 2) (untilLength terminators 0 rest) := by
  obtain ⟨hopening, hclosing⟩ := depthAfter_of_closer? closes 0
  have hcloser := (TokenKind.isOpener_of_closer? closes).1.2
  rw [untilLength, if_neg (by simp [notEnd, hcloser]), hopening, untilLength_nested inside, untilLength,
    if_neg (by omega), hclosing]
  simp only [after_after]
  congr 1
  omega

/-- A search for terminators stops before the tokens behind loose ones, if these start with a bracket
that closes. -/
theorem untilLength_loose (terminators : List TokenKind) (h : Loose u)
    (stop : behind.head?.any (·.kind.isCloser) = true) :
    ∃ before rest, u = before ++ rest ∧ Loose rest ∧
      untilLength terminators 0 (u ++ behind) = .closed before.length := by
  induction h with
  | nil =>
      cases behind with
      | nil => cases stop
      | cons b more =>
          have hb : b.kind.isCloser = true := stop
          refine ⟨[], [], rfl, .nil, ?_⟩
          rw [List.nil_append, untilLength, if_pos ⟨rfl, .inr hb⟩]
          rfl
  | @single t rest notOpener notBrace later ih =>
      rw [List.cons_append, untilLength]
      split
      · exact ⟨[], t :: rest, rfl, .single notOpener notBrace later, rfl⟩
      · obtain ⟨before, rest', rfl, hrest, hlength⟩ := ih
        have hdepth : depthAfter 0 t = 0 := by simp [depthAfter, notOpener]
        refine ⟨t :: before, rest', rfl, hrest, ?_⟩
        rw [hdepth, hlength, after_closed, List.length_cons, Nat.add_comm]
  | @group opening closing inner rest closes inside later ih =>
      by_cases hend : opening.kind ∈ terminators
      · refine ⟨[], _, rfl, .group closes inside later, ?_⟩
        rw [List.cons_append, untilLength, if_pos ⟨rfl, .inl hend⟩]
        rfl
      · obtain ⟨before, rest', rfl, hrest, hlength⟩ := ih
        refine ⟨opening :: (inner ++ closing :: before), rest', by simp, hrest, ?_⟩
        have happend : opening :: (inner ++ closing :: (before ++ rest')) ++ behind =
            opening :: (inner ++ closing :: (before ++ rest' ++ behind)) := by simp
        rw [happend, untilLength_group closes inside hend, hlength, after_closed]
        congr 1
        simp only [List.length_cons, List.length_append]
        omega

/-- A search for a closing brace passes all of the nested tokens before it. -/
theorem untilLength_rightBrace (h : Nested u) (stop : behind.head?.any (·.kind = .rightBrace) = true) :
    untilLength [.rightBrace] 0 (u ++ behind) = .closed u.length := by
  induction h with
  | nil =>
      cases behind with
      | nil => cases stop
      | cons b more =>
          have hb : b.kind = .rightBrace := by simpa using stop
          rw [List.nil_append, untilLength, if_pos ⟨rfl, .inr (by rw [hb]; rfl)⟩]
          rfl
  | @plain t rest notOpener notCloser _ ih =>
      have hkind : t.kind ≠ .rightBrace := by
        rintro hkind
        rw [hkind] at notCloser
        cases notCloser
      rw [List.cons_append, untilLength, if_neg (by simp [hkind, notCloser]),
        depthAfter_plain notOpener notCloser, ih, after_closed, List.length_cons, Nat.add_comm]
  | @group opening closing inner rest closes inside _ _ ih =>
      have hend : opening.kind ∉ [TokenKind.rightBrace] := by
        rw [List.mem_singleton]
        rintro hkind
        rw [hkind] at closes
        cases closes
      have happend : opening :: (inner ++ closing :: rest) ++ behind =
          opening :: (inner ++ closing :: (rest ++ behind)) := by simp
      rw [happend, untilLength_group closes inside hend, ih, after_closed]
      congr 1
      simp only [List.length_cons, List.length_append]
      omega

/-- A `;` or a `}`, behind which a member may start. -/
def endsMember : TokenKind → Bool
  | .semicolon | .rightBrace => true
  | _ => false

/-- Where reading goes on after an error: behind the end of a member, before a keyword that starts a
declaration, or at the end. -/
def Resumes (before rest : List Token) : Prop :=
  rest = [] ∨ (∃ more t, before = more ++ [t] ∧ endsMember t.kind = true) ∨
    rest.head?.any (startsDeclaration ·.kind) = true

theorem Resumes.append {a before rest : List Token} (h : Resumes before rest) :
    Resumes (a ++ before) rest := by
  refine h.imp_right (Or.imp_left ?_)
  rintro ⟨more, t, rfl, ht⟩
  exact ⟨a ++ more, t, (List.append_assoc ..).symm, ht⟩

/-- After an error before a group, the group is passed; a group of braces ends what is passed, with the
`;` that may follow it. -/
theorem resumeLength_group {opening closing : Token} {rest : List Token}
    (closes : opening.kind.closer? = some closing.kind) (inside : Nested inner) (moved : Bool) :
    resumeLength moved (opening :: (inner ++ closing :: rest)) =
      if opening.kind = .leftBrace then
        .closed (inner.length + 2 + if rest.head?.any (·.kind = .semicolon) then 1 else 0)
      else .after (inner.length + 2) (resumeLength true rest) := by
  have hopener := (TokenKind.isOpener_of_closer? closes).1.1
  have hne : opening.kind ≠ .semicolon ∧ opening.kind ≠ .rightBrace := by
    constructor <;> rintro hkind <;> rw [hkind] at hopener <;> cases hopener
  have hdrop : (inner ++ closing :: rest).drop (inner.length + 2 - 1) = rest := by
    rw [show inner.length + 2 - 1 = inner.length + 1 from rfl, ← List.drop_drop, List.drop_left]
    rfl
  rw [resumeLength, if_neg hne.1, if_neg hne.2, if_pos hopener, groupLength?_group closes inside]
  dsimp only
  rw [hdrop]

/-- After an error in loose tokens reading goes on in these or right behind them, and it does go on. -/
theorem resumeLength_loose (h : Loose u) (stop : behind.head?.any (·.kind = .rightBrace) = true)
    (moved : Bool) :
    ∃ before rest, u = before ++ rest ∧ Loose rest ∧ Resumes before rest ∧
      (moved = false → u ≠ [] → before ≠ []) ∧
        resumeLength moved (u ++ behind) = .closed before.length := by
  induction h generalizing moved with
  | nil =>
      cases behind with
      | nil => cases stop
      | cons b more =>
          have hb : b.kind = .rightBrace := by simpa using stop
          refine ⟨[], [], rfl, .nil, .inl rfl, by simp, ?_⟩
          rw [List.nil_append, resumeLength, if_neg (by simp [hb]), if_pos hb]
          rfl
  | @single t rest notOpener notBrace later ih =>
      rw [List.cons_append, resumeLength]
      by_cases hsemicolon : t.kind = .semicolon
      · rw [if_pos hsemicolon]
        exact ⟨[t], rest, rfl, later, .inr (.inl ⟨[], t, rfl, by rw [hsemicolon]; rfl⟩), by simp, rfl⟩
      rw [if_neg hsemicolon, if_neg notBrace, if_neg (by simp [notOpener])]
      by_cases hstart : (moved && startsDeclaration t.kind) = true
      · rw [if_pos hstart]
        rw [Bool.and_eq_true] at hstart
        refine ⟨[], t :: rest, rfl, .single notOpener notBrace later, .inr (.inr hstart.2), ?_, rfl⟩
        rw [hstart.1]
        exact fun h => absurd h (by decide)
      · rw [if_neg hstart]
        obtain ⟨before, rest', rfl, hrest, hresumes, -, hlength⟩ := ih true
        refine ⟨t :: before, rest', rfl, hrest, hresumes.append (a := [t]), by simp, ?_⟩
        rw [hlength, after_closed, List.length_cons, Nat.add_comm]
  | @group opening closing inner rest closes inside later ih =>
      have happend : opening :: (inner ++ closing :: rest) ++ behind =
          opening :: (inner ++ closing :: (rest ++ behind)) := by simp
      have hlength : (opening :: (inner ++ [closing])).length = inner.length + 2 := by simp
      rw [happend, resumeLength_group closes inside]
      by_cases hbrace : opening.kind = .leftBrace
      · have hclosing := (TokenKind.closer?_eq_rightBrace closes).2 hbrace
        rw [if_pos hbrace]
        by_cases hsemicolon : rest.head?.any (·.kind = .semicolon) = true
        · cases rest with
          | nil => cases hsemicolon
          | cons t rest =>
              have ht : t.kind = .semicolon := by simpa using hsemicolon
              refine ⟨opening :: (inner ++ [closing]) ++ [t], rest, by simp,
                later.passed (by simp [ht]), ?_, by simp, ?_⟩
              · exact .inr (.inl ⟨_, t, rfl, by rw [ht]; rfl⟩)
              · rw [List.length_append, hlength, List.cons_append, List.head?_cons]
                simp [ht]
        · refine ⟨opening :: (inner ++ [closing]), rest, by simp, later, ?_, by simp, ?_⟩
          · exact .inr (.inl ⟨opening :: inner, closing, rfl, by rw [hclosing]; rfl⟩)
          · have hnot : (rest ++ behind).head?.any (·.kind = .semicolon) = false := by
              cases rest with
              | nil =>
                  cases behind with
                  | nil => rfl
                  | cons b more =>
                      have hb : b.kind = .rightBrace := by simpa using stop
                      simp [hb]
              | cons t more => exact Bool.eq_false_iff.2 hsemicolon
            rw [hlength, if_neg (by rw [hnot]; exact Bool.false_ne_true)]
      · obtain ⟨before, rest', rfl, hrest, hresumes, -, hmore⟩ := ih true
        refine ⟨opening :: (inner ++ [closing]) ++ before, rest', by simp, hrest, hresumes.append,
          by simp, ?_⟩
        rw [if_neg hbrace, hmore, after_closed, List.length_append, hlength]

end Skip

end Graft
