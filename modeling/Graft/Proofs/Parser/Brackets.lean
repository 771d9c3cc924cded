/-
Module: Graft.Proofs.Parser.Brackets
Purpose: Brackets that balance when those of all kinds are counted together.
Main exports: Skip.openBehind?, Skip.Balanced, Token.Counted, Skip.balanced_iff_counted,
  Skip.closed_resumeLength, Skip.Passed

Groups are passed by their count of brackets, whatever kinds these are of.  Where this count comes out even,
every group ends, and reading that goes on after an error never runs into the end of the source inside one.
-/
import Graft.Proofs.Parser.Nesting
import Graft.Proofs.Parser.Skipping

namespace Graft

namespace TokenKind

theorem isCloser_of_isOpener {kind : TokenKind} (h : kind.isOpener = true) : kind.isCloser = false := by
  cases kind <;> first | rfl | cases h

end TokenKind

namespace Skip

variable {t opening closing : Token} {u v tokens rest : List Token} {depth after count : Nat}

/-! ### Depths -/

/-- How many brackets are open behind some tokens, with `depth` of them open before; nothing if one is
closed that is not open. -/
def openBehind? (depth : Nat) : List Token → Option Nat
  | [] => some depth
  | t :: rest => if depth = 0 ∧ t.kind.isCloser then none else openBehind? (depthAfter depth t) rest

/-- Tokens that close each bracket they open, and no other. -/
def Balanced (tokens : List Token) : Prop := openBehind? 0 tokens = some 0

theorem openBehind?_append (depth : Nat) (u v : List Token) :
    openBehind? depth (u ++ v) = (openBehind? depth u).bind (openBehind? · v) := by
  induction u generalizing depth with
  | nil => rfl
  | cons t rest ih =>
      rw [List.cons_append, openBehind?, openBehind?]
      split
      · rfl
      · exact ih _

theorem depthAfter_add (h : ¬(depth = 0 ∧ t.kind.isCloser = true)) (more : Nat) :
    depthAfter (depth + more) t = depthAfter depth t + more := by
  unfold depthAfter
  split
  · omega
  · split
    · rename_i hcloser
      have hdepth : depth ≠ 0 := fun hzero => h ⟨hzero, hcloser⟩
      omega
    · rfl

/-- Inside more brackets just these are open besides. -/
theorem openBehind?_add (h : openBehind? depth u = some after) (more : Nat) :
    openBehind? (depth + more) u = some (after + more) := by
  induction u generalizing depth with
  | nil =>
      cases h
      rfl
  | cons t rest ih =>
      rw [openBehind?] at h
      split at h
      · cases h
      · rename_i hopen
        rw [openBehind?, if_neg (fun hclose => hopen ⟨by omega, hclose.2⟩), depthAfter_add hopen]
        exact ih h

theorem openBehind?_opener (opener : opening.kind.isOpener = true) :
    openBehind? depth (opening :: u) = openBehind? (depth + 1) u := by
  rw [openBehind?, if_neg (by simp [TokenKind.isCloser_of_isOpener opener]), depthAfter_opener opener]

/-- A token of the kind leads from one depth to another. -/
def Steps (depth after : Nat) (kind : TokenKind) : Prop :=
  ∀ t : Token, t.kind = kind → openBehind? depth [t] = some after

namespace Steps

variable {kind : TokenKind}

theorem plain (notOpener : kind.isOpener = false) (notCloser : kind.isCloser = false) :
    Steps depth depth kind := by
  rintro t rfl
  rw [openBehind?, if_neg (by simp [notCloser]), depthAfter_plain notOpener notCloser]
  rfl

theorem opener (h : kind.isOpener = true) : Steps depth (depth + 1) kind := by
  rintro t rfl
  rw [openBehind?_opener h]
  rfl

theorem closer (h : kind.isCloser = true) : Steps (depth + 1) depth kind := by
  rintro t rfl
  have hopener : t.kind.isOpener ≠ true := fun hopener => by
    rw [TokenKind.isCloser_of_isOpener hopener] at h
    cases h
  rw [openBehind?, if_neg (by simp), depthAfter, if_neg hopener, if_pos h]
  rfl

end Steps

namespace Balanced

theorem nil : Balanced [] := rfl

theorem append (hu : Balanced u) (hv : Balanced v) : Balanced (u ++ v) := by
  unfold Balanced at *
  rw [openBehind?_append, hu]
  exact hv

theorem plain (notOpener : t.kind.isOpener = false) (notCloser : t.kind.isCloser = false) : Balanced [t] :=
  Steps.plain notOpener notCloser t rfl

theorem group (opener : opening.kind.isOpener = true) (closer : closing.kind.isCloser = true)
    (inside : Balanced u) :
    Balanced (opening :: (u ++ [closing])) := by
  rw [Balanced, openBehind?_opener opener, openBehind?_append, openBehind?_add inside 1]
  exact Steps.closer closer closing rfl

end Balanced

end Skip

/-! ### Counts -/

namespace Token

/-- How many tokens open a bracket: a parenthesis, a square bracket or a brace. -/
def openers (tokens : List Token) : Nat := tokens.countP (·.kind.isOpener)

/-- How many tokens close a bracket, of whatever kind. -/
def closers (tokens : List Token) : Nat := tokens.countP (·.kind.isCloser)

/-- As many brackets are closed as are opened, and up to no token have more been closed than opened. -/
structure Counted (tokens : List Token) : Prop where
  prefixes : ∀ front, front <+: tokens → closers front ≤ openers front
  totals : openers tokens = closers tokens

end Token

namespace Skip

open Token (openers closers)

variable {t : Token} {u tokens : List Token} {depth after : Nat}

theorem openers_cons : openers (t :: u) = openers u + if t.kind.isOpener then 1 else 0 := List.countP_cons

theorem closers_cons : closers (t :: u) = closers u + if t.kind.isCloser then 1 else 0 := List.countP_cons

/-- What holds of no tokens holds of all beginnings of a list if it holds of those with the first token. -/
theorem forall_prefix_cons {P : List Token → Prop} (nil : P []) :
    (∀ front, front <+: t :: u → P front) ↔ ∀ front, front <+: u → P (t :: front) := by
  constructor
  · exact fun h front hfront => h _ ((List.prefix_cons_inj t).2 hfront)
  · intro h front hfront
    rcases List.prefix_cons_iff.1 hfront with rfl | ⟨more, rfl, hmore⟩
    · exact nil
    · exact h more hmore

/-- How many brackets are open behind some tokens is told by counting. -/
theorem openBehind?_eq_some_iff : openBehind? depth u = some after ↔
    (∀ front, front <+: u → closers front ≤ depth + openers front) ∧
    depth + openers u = after + closers u := by
  induction u generalizing depth with
  | nil => simp [openBehind?, openers, closers]
  | cons t rest ih =>
      have hnil : closers [] ≤ depth + openers [] := Nat.zero_le _
      rw [forall_prefix_cons hnil]
      simp only [openers_cons, closers_cons]
      cases hopener : t.kind.isOpener with
      | true =>
          rw [openBehind?_opener hopener, ih, TokenKind.isCloser_of_isOpener hopener]
          refine and_congr (forall₂_congr fun front _ => ?_) ?_ <;> simp <;> omega
      | false =>
          cases hcloser : t.kind.isCloser with
          | false =>
              rw [openBehind?, if_neg (by simp [hcloser]), depthAfter_plain hopener hcloser, ih]
              simp
          | true =>
              cases depth with
              | zero =>
                  -- the first bracket is closed without having been opened
                  rw [openBehind?, if_pos ⟨rfl, hcloser⟩]
                  refine iff_of_false nofun fun h => ?_
                  have hfirst := h.1 [] List.nil_prefix
                  simp [openers, closers] at hfirst
              | succ depth =>
                  rw [openBehind?, if_neg (by simp), depthAfter, if_neg (by simp [hopener]), if_pos hcloser,
                    Nat.add_sub_cancel, ih]
                  refine and_congr (forall₂_congr fun front _ => ?_) ?_ <;> simp <;> omega

/-- Brackets balance if they do so by counting. -/
theorem balanced_iff_counted : Balanced tokens ↔ Token.Counted tokens := by
  rw [Balanced, openBehind?_eq_some_iff]
  simp only [Nat.zero_add]
  exact ⟨fun h => ⟨h.1, h.2⟩, fun h => ⟨h.prefixes, h.totals⟩⟩

end Skip

/-- Brackets that are properly nested balance. -/
theorem Nested.balanced {u : List Token} (h : Nested u) : Skip.Balanced u := by
  induction h with
  | nil => exact .nil
  | plain notOpener notCloser _ ih => exact (Skip.Balanced.plain notOpener notCloser).append ih
  | @group opening closing inner rest closes _ _ ih ih' =>
      obtain ⟨⟨opener, -⟩, -, closer⟩ := TokenKind.isOpener_of_closer? closes
      have hgroup := (Skip.Balanced.group opener closer ih).append ih'
      rwa [List.cons_append, List.append_assoc, List.singleton_append] at hgroup

namespace Skip

variable {t opening closing : Token} {u tokens rest : List Token} {depth after count : Nat}

/-! ### Distances -/

/-- What a search passes balances with the brackets that were open before. -/
theorem openBehind?_untilLength {terminators : List TokenKind}
    (h : untilLength terminators depth tokens = .closed count) :
    openBehind? depth (tokens.take count) = some 0 := by
  induction tokens generalizing depth count with
  | nil =>
      rw [untilLength, Distance.closed, Distance.mk.injEq] at h
      obtain rfl : depth = 0 := by simpa using h.2
      rw [List.take_nil]
      rfl
  | cons t rest ih =>
      rw [untilLength] at h
      split at h
      · rename_i hstop
        obtain rfl : 0 = count := congrArg Distance.count h
        rw [hstop.1]
        rfl
      · rename_i hgo
        obtain ⟨hcount, hclosed⟩ := Distance.mk.inj h
        subst hcount
        rw [Nat.add_comm, List.take_succ_cons, openBehind?, if_neg fun hclose =>
          hgo ⟨hclose.1, .inr hclose.2⟩]
        refine ih ?_
        rw [Distance.closed, ← hclosed]

theorem balanced_untilLength {terminators : List TokenKind}
    (h : untilLength terminators 0 tokens = .closed count) :
    Balanced (tokens.take count) := openBehind?_untilLength h

theorem openBehind?_groupLength? (h : groupLength? (depth + 1) tokens = some count) :
    openBehind? (depth + 1) (tokens.take count) = some 0 := by
  induction tokens generalizing depth count with
  | nil => cases h
  | cons t rest ih =>
      rw [groupLength?] at h
      split at h
      · rename_i hdepth
        cases h
        rw [List.take_succ_cons, List.take_zero, openBehind?, if_neg (by simp), hdepth]
        rfl
      · rename_i hdepth
        obtain ⟨inner, hinner⟩ := Nat.exists_eq_add_one_of_ne_zero hdepth
        obtain ⟨more, hmore, rfl⟩ := Option.map_eq_some_iff.1 h
        rw [hinner] at hmore
        rw [List.take_succ_cons, openBehind?, if_neg (by simp), hinner]
        exact ih hmore

/-- A group balances. -/
theorem balanced_groupLength? (opener : opening.kind.isOpener = true)
    (h : groupLength? 0 (opening :: rest) = some count) : Balanced ((opening :: rest).take count) := by
  rw [groupLength?, depthAfter_opener opener, if_neg (Nat.succ_ne_zero _)] at h
  obtain ⟨more, hmore, rfl⟩ := Option.map_eq_some_iff.1 h
  rw [List.take_succ_cons, Balanced, openBehind?_opener opener]
  exact openBehind?_groupLength? hmore

/-- A group is passed past tokens that leave it open. -/
theorem groupLength?_append (h : openBehind? depth u = some after) (rest : List Token) :
    groupLength? (depth + 1) (u ++ rest) = (groupLength? (after + 1) rest).map (· + u.length) := by
  induction u generalizing depth with
  | nil =>
      cases h
      simp
  | cons t u ih =>
      rw [openBehind?] at h
      split at h
      · cases h
      · rename_i hopen
        rw [List.cons_append, groupLength?, depthAfter_add hopen, if_neg (Nat.succ_ne_zero _), ih h,
          Option.map_map]
        rfl

/-- A group ends behind tokens that balance with the bracket that closes it. -/
theorem groupLength?_group_of_balanced (opener : opening.kind.isOpener = true)
    (closer : closing.kind.isCloser = true) (inside : Balanced u) :
    groupLength? 0 (opening :: (u ++ closing :: rest)) = some (1 + u.length + 1) := by
  have hopener : closing.kind.isOpener ≠ true := fun h => by
    rw [TokenKind.isCloser_of_isOpener h] at closer
    cases closer
  have hclosing : depthAfter 1 closing = 0 := by rw [depthAfter, if_neg hopener, if_pos closer]
  rw [groupLength?, depthAfter_opener opener, if_neg (Nat.succ_ne_zero _), groupLength?_append inside,
    groupLength?, if_pos hclosing]
  rfl

/-- Where all brackets are closed in the end, those that are open before close with a
group, and the rest balances. -/
theorem exists_groupLength? (h : openBehind? (depth + 1) tokens = some 0) :
    ∃ count, groupLength? (depth + 1) tokens = some count ∧ Balanced (tokens.drop count) := by
  induction tokens generalizing depth with
  | nil => cases h
  | cons t rest ih =>
      rw [openBehind?, if_neg (by simp)] at h
      rw [groupLength?]
      split
      · rename_i hdepth
        rw [hdepth] at h
        exact ⟨1, rfl, h⟩
      · rename_i hdepth
        obtain ⟨inner, hinner⟩ := Nat.exists_eq_add_one_of_ne_zero hdepth
        rw [hinner] at h
        obtain ⟨count, hcount, hrest⟩ := ih h
        exact ⟨count + 1, by rw [hinner, hcount]; rfl, hrest⟩

/-- After an error in tokens whose brackets balance no bracket is found open at their end. -/
theorem closed_resumeLength (h : Balanced tokens) (moved : Bool) :
    (resumeLength moved tokens).unclosed = false := by
  -- a group is passed at once, so that the induction is on the number of tokens that are left
  induction hlength : tokens.length using Nat.strongRecOn generalizing tokens moved with
  | _ length ih =>
      cases tokens with
      | nil =>
          rw [resumeLength]
          rfl
      | cons t rest =>
          rw [resumeLength]
          split
          · rfl
          split
          · rfl
          rename_i hbrace
          split
          · rename_i hopener
            rw [Balanced, openBehind?_opener hopener] at h
            obtain ⟨count, hcount, hrest⟩ := exists_groupLength? h
            rw [groupLength?, depthAfter_opener hopener, if_neg (Nat.succ_ne_zero _), hcount]
            dsimp only [Option.map_some]
            split
            · rfl
            · rw [Nat.add_sub_cancel]
              refine ih _ ?_ hrest true rfl
              rw [List.length_drop, ← hlength, List.length_cons]
              omega
          split
          · rfl
          · rename_i hopener _
            refine ih rest.length (by rw [← hlength]; exact Nat.lt_succ_self _) ?_ true rfl
            rw [Balanced, openBehind?] at h
            split at h
            · cases h
            · rename_i hclose
              have hdepth : depthAfter 0 t = 0 := by
                rw [depthAfter, if_neg hopener]
                split <;> rfl
              rwa [hdepth] at h

/-! ### Tokens before which reading does not go on -/

/-- Tokens that are passed as a whole after an error. -/
def Passed (tokens : List Token) : Prop :=
  ∀ rest, resumeLength true (tokens ++ rest) = .after tokens.length (resumeLength true rest)

/-- Until tokens have been passed, it matters only whether a declaration starts right away. -/
theorem resumeLength_false (h : ∀ t ∈ tokens.head?, startsDeclaration t.kind = false) :
    resumeLength false tokens = resumeLength true tokens := by
  cases tokens with
  | nil => rw [resumeLength, resumeLength]
  | cons t rest =>
      rw [resumeLength, resumeLength, h t rfl]
      simp only [Bool.and_false]

/-- Reading goes on behind a semicolon. -/
theorem resumeLength_semicolon (h : t.kind = .semicolon) (moved : Bool) (rest : List Token) :
    resumeLength moved (t :: rest) = .closed 1 := by
  rw [resumeLength, if_pos h]

/-- Reading goes on before a keyword that starts a declaration. -/
theorem resumeLength_start (h : startsDeclaration t.kind = true) (rest : List Token) :
    resumeLength true (t :: rest) = .closed 0 := by
  have hkind : t.kind ≠ .semicolon ∧ t.kind ≠ .rightBrace ∧ t.kind.isOpener = false := by
    unfold startsDeclaration at h
    split at h <;> simp_all [TokenKind.isOpener]
  rw [resumeLength, if_neg hkind.1, if_neg hkind.2.1, if_neg (by simp [hkind.2.2]), h]
  rfl

namespace Passed

theorem nil : Passed [] := fun rest => by simp [Distance.after]

theorem append {v : List Token} (hu : Passed u) (hv : Passed v) : Passed (u ++ v) := fun rest => by
  rw [List.append_assoc, hu, hv, after_after, List.length_append]

theorem single (notEnd : endsMember t.kind = false) (notOpener : t.kind.isOpener = false)
    (notStart : startsDeclaration t.kind = false) : Passed [t] := fun rest => by
  have hkind : t.kind ≠ .semicolon ∧ t.kind ≠ .rightBrace := by
    constructor <;> rintro hkind <;> rw [hkind] at notEnd <;> cases notEnd
  rw [List.singleton_append, resumeLength, if_neg hkind.1, if_neg hkind.2, if_neg (by simp [notOpener]),
    if_neg (by simp [notStart])]
  rfl

/-- A group of parentheses or square brackets is passed. -/
theorem group (opener : opening.kind.isOpener = true) (notBrace : opening.kind ≠ .leftBrace)
    (closer : closing.kind.isCloser = true) (inside : Balanced u) :
    Passed (opening :: (u ++ [closing])) := fun rest => by
  have hkind : opening.kind ≠ .semicolon ∧ opening.kind ≠ .rightBrace := by
    constructor <;> rintro hkind <;> rw [hkind] at opener <;> cases opener
  have hlist : opening :: (u ++ [closing]) ++ rest = opening :: (u ++ closing :: rest) := by simp
  have hdrop : (u ++ closing :: rest).drop (1 + u.length + 1 - 1) = rest := by
    rw [Nat.add_sub_cancel, Nat.add_comm, ← List.drop_drop, List.drop_left]
    rfl
  rw [hlist, resumeLength, if_neg hkind.1, if_neg hkind.2, if_pos opener,
    groupLength?_group_of_balanced opener closer inside]
  dsimp only
  rw [if_neg notBrace, hdrop, List.length_cons, List.length_append, List.length_singleton]
  congr 1
  omega

end Passed

end Skip

end Graft
