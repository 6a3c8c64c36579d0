import TerraDoc.Hcl.Syntax

namespace TerraDoc.Hcl

mutual

/-- The comment that a token is, or the comments in what it interpolates. -/
def Token.comments : Token → List Slice
  | .comment slice => [slice]
  | .heredoc _ inside => commentsOf inside
  | _ => []

/-- The comments among some tokens, in order. -/
def commentsOf : List Token → List Slice
  | [] => []
  | token :: rest => token.comments ++ commentsOf rest

end

/-- A text that begins at a position, with a space in place of each of some comments. -/
def spaced (position : Nat) : List Slice → List Char → List Char
  | [], text => text
  | comment :: later, text =>
      text.take (comment.start - position) ++
        ' ' :: spaced comment.stop later (text.drop (comment.stop - position))

/-- A piece of a source at the place that its own place is moved to. -/
def Slice.moved (move : Nat → Nat) (slice : Slice) : Slice :=
  ⟨move slice.start, slice.text⟩

/-- Comments that stand one after the other between two positions. -/
def InOrder (position stop : Nat) : List Slice → Prop
  | [] => position ≤ stop
  | comment :: later => position ≤ comment.start ∧ InOrder comment.stop stop later

/-- Whether a token is neither a comment nor holds other tokens. -/
def Token.isPlain : Token → Bool
  | .comment _ | .heredoc _ _ => false
  | _ => true

/-- A text begins as comments do. -/
def OpensComment (text : List Char) : Prop :=
  ∃ sign ∈ [['#'], ['/', '/'], ['/', '*']], sign <+: text

theorem OpensComment.head {text : List Char} (opens : OpensComment text) :
    ∃ c rest, text = c :: rest ∧ (c = '#' ∨ c = '/') := by
  obtain ⟨sign, member, rest, rfl⟩ := opens
  simp only [List.mem_cons, List.not_mem_nil, or_false] at member
  rcases member with rfl | rfl | rfl
  · exact ⟨'#', rest, rfl, .inl rfl⟩
  · exact ⟨'/', '/' :: rest, rfl, .inr rfl⟩
  · exact ⟨'/', '*' :: rest, rfl, .inr rfl⟩

theorem OpensComment.append {text : List Char} (opens : OpensComment text) (more : List Char) :
    OpensComment (text ++ more) := by
  obtain ⟨sign, member, opened⟩ := opens
  exact ⟨sign, member, opened.trans (List.prefix_append text more)⟩

/-- A text that begins at a position, its tokens, and the same text with a space in place of every
comment among them. -/
inductive Spacing : Nat → List Char → List Token → List Char → Prop where
  | nil (p : Nat) : Spacing p [] [] []
  | keep {p : Nat} {text other : List Char} {tokens : List Token} (c : Char)
      (later : Spacing (p + 1) text tokens other) : Spacing p (c :: text) tokens (c :: other)
  | comment {slice : Slice} {text other : List Char} {tokens : List Token}
      (opens : OpensComment slice.text) (later : Spacing slice.stop text tokens other) :
      Spacing slice.start (slice.text ++ text) (.comment slice :: tokens) (' ' :: other)
  | heredoc {slice : Slice} {text body other : List Char} {inside tokens : List Token}
      (within : Spacing slice.start slice.text inside body)
      (later : Spacing slice.stop text tokens other) :
      Spacing slice.start (slice.text ++ text) (.heredoc slice inside :: tokens) (body ++ other)
  | token {p : Nat} {text other : List Char} {tokens : List Token} {token : Token}
      (plain : token.isPlain = true) (later : Spacing p text tokens other) :
      Spacing p text (token :: tokens) other

/-- Comments that stand in a text which begins at a position. -/
def Stand (position : Nat) (comments : List Slice) (text : List Char) : Prop :=
  ∀ comment ∈ comments,
    OpensComment comment.text ∧ comment.text <+: text.drop (comment.start - position)

variable {p stop : Nat} {text rest : List Char} {comments later : List Slice}

theorem Token.comments_of_isPlain {token : Token} (plain : token.isPlain = true) :
    token.comments = [] := by
  cases token
  case comment | heredoc => cases plain
  all_goals rfl

namespace InOrder

theorem le (order : InOrder p stop comments) : p ≤ stop := by
  induction comments generalizing p with
  | nil => exact order
  | cons comment later ih =>
    exact Nat.le_trans order.1 (Nat.le_trans (Nat.le_add_right _ _) (ih order.2))

theorem append {middle : Nat} (first : InOrder p middle comments)
    (second : InOrder middle stop later) : InOrder p stop (comments ++ later) := by
  induction comments generalizing p with
  | nil =>
    cases later with
    | nil => exact Nat.le_trans first second
    | cons comment later => exact ⟨Nat.le_trans first second.1, second.2⟩
  | cons comment comments ih => exact ⟨first.1, ih first.2⟩

theorem mono {earlier : Nat} (before : earlier ≤ p) (order : InOrder p stop comments) :
    InOrder earlier stop comments := by
  cases comments with
  | nil => exact Nat.le_trans before order
  | cons comment later => exact ⟨Nat.le_trans before order.1, order.2⟩

theorem mem {comment : Slice} (order : InOrder p stop comments) (member : comment ∈ comments) :
    p ≤ comment.start ∧ comment.stop ≤ stop := by
  induction comments generalizing p with
  | nil => cases member
  | cons first comments ih =>
    rcases List.mem_cons.mp member with rfl | later
    · exact ⟨order.1, order.2.le⟩
    · obtain ⟨start, last⟩ := ih order.2 later
      have begun := order.1
      have inside : first.start ≤ first.stop := Nat.le_add_right _ _
      exact ⟨by omega, last⟩

end InOrder

namespace Stand

theorem nil (p : Nat) (text : List Char) : Stand p [] text := fun _ member => by cases member

theorem append_left (piece : List Char) (stand : Stand (p + piece.length) comments text)
    (order : InOrder (p + piece.length) stop comments) : Stand p comments (piece ++ text) := by
  intro comment member
  obtain ⟨opens, stands⟩ := stand comment member
  have start := (order.mem member).1
  rw [show comment.start - p = piece.length + (comment.start - (p + piece.length)) by omega,
    ← List.drop_drop, List.drop_left]
  exact ⟨opens, stands⟩

theorem append_right (stand : Stand p comments text) (more : List Char) :
    Stand p comments (text ++ more) := by
  intro comment member
  obtain ⟨opens, stands⟩ := stand comment member
  rw [List.drop_append]
  exact ⟨opens, stands.trans (List.prefix_append _ _)⟩

theorem append (stand : Stand p comments text) (after : Stand p later text) :
    Stand p (comments ++ later) text := fun comment member =>
  (List.mem_append.mp member).elim (stand comment) (after comment)

theorem comment {slice : Slice} (opens : OpensComment slice.text) (text : List Char) :
    Stand slice.start [slice] (slice.text ++ text) := by
  intro other member
  obtain rfl := List.mem_singleton.mp member
  rw [Nat.sub_self, List.drop_zero]
  exact ⟨opens, List.prefix_append _ _⟩

theorem moved {move : Nat → Nat} (stand : Stand p comments text) (order : InOrder p stop comments)
    (constant : ∀ i, p ≤ i → i ≤ stop → move i = move p + (i - p)) :
    Stand (move p) (comments.map (Slice.moved move)) text := by
  intro _ image
  obtain ⟨comment, member, rfl⟩ := List.mem_map.mp image
  obtain ⟨start, last⟩ := order.mem member
  have inside : comment.start ≤ comment.stop := Nat.le_add_right _ _
  rw [Slice.moved, constant comment.start start (Nat.le_trans inside last), Nat.add_sub_cancel_left]
  exact stand comment member

end Stand

theorem spaced_cons (c : Char) (after : InOrder (p + 1) stop comments) :
    spaced p comments (c :: text) = c :: spaced (p + 1) comments text := by
  cases comments with
  | nil => rfl
  | cons comment later =>
    have start := after.1
    have stop : comment.start ≤ comment.stop := Nat.le_add_right _ _
    rw [spaced, spaced, show comment.start - p = comment.start - (p + 1) + 1 by omega,
      show comment.stop - p = comment.stop - (p + 1) + 1 by omega]
    rfl

theorem spaced_comment (comment : Slice) (later : List Slice) (text : List Char) :
    spaced comment.start (comment :: later) (comment.text ++ text) =
      ' ' :: spaced comment.stop later text := by
  rw [spaced, Nat.sub_self, List.take_zero, List.nil_append, Slice.stop, Nat.add_sub_cancel_left,
    List.drop_left]

theorem spaced_keep (after : InOrder (p + text.length) stop later) :
    spaced p later (text ++ rest) = text ++ spaced (p + text.length) later rest := by
  induction text generalizing p with
  | nil => rfl
  | cons c text ih =>
    rw [List.length_cons, Nat.add_comm text.length, ← Nat.add_assoc] at after
    rw [List.cons_append, spaced_cons c (after.mono (Nat.le_add_right _ _)), ih after,
      List.length_cons, Nat.add_comm text.length, ← Nat.add_assoc, List.cons_append]

theorem spaced_append (order : InOrder p (p + text.length) comments)
    (after : InOrder (p + text.length) stop later) :
    spaced p (comments ++ later) (text ++ rest) =
      spaced p comments text ++ spaced (p + text.length) later rest := by
  induction comments generalizing p text with
  | nil => exact spaced_keep after
  | cons comment comments ih =>
    have start := order.1
    have passed := order.2.le
    have inside : comment.start ≤ comment.stop := Nat.le_add_right _ _
    have left : comment.stop + (text.drop (comment.stop - p)).length = p + text.length := by
      rw [List.length_drop]
      omega
    have later := @ih comment.stop (text.drop (comment.stop - p)) (left ▸ order.2) (left ▸ after)
    rw [left] at later
    rw [List.cons_append, spaced, spaced, List.take_append_of_le_length (by omega),
      List.drop_append_of_le_length (by omega), later, List.append_assoc]
    rfl

theorem Slice.stop_moved {move : Nat → Nat} {slice : Slice}
    (constant : ∀ i, p ≤ i → i ≤ stop → move i = move p + (i - p)) (start : p ≤ slice.start)
    (passed : slice.stop ≤ stop) : (slice.moved move).stop = move slice.stop := by
  have length : slice.stop = slice.start + slice.text.length := rfl
  have begun := constant slice.start start (by omega)
  have ended := constant slice.stop (by omega) passed
  show move slice.start + slice.text.length = move slice.stop
  omega

theorem InOrder.moved {move : Nat → Nat} (order : InOrder p stop comments)
    (constant : ∀ i, p ≤ i → i ≤ stop → move i = move p + (i - p)) :
    InOrder (move p) (move stop) (comments.map (Slice.moved move)) := by
  induction comments generalizing p with
  | nil =>
    have last := constant stop order (Nat.le_refl _)
    show move p ≤ move stop
    omega
  | cons comment comments ih =>
    have inside : comment.start ≤ comment.stop := Nat.le_add_right _ _
    have start := order.1
    have passed := order.2.le
    have begun := constant comment.start start (Nat.le_trans inside passed)
    have ended := constant comment.stop (Nat.le_trans start inside) passed
    refine ⟨?_, ?_⟩
    · show move p ≤ move comment.start
      omega
    · have later := ih order.2 fun i after before => by
        have here := constant i (Nat.le_trans (Nat.le_trans start inside) after) before
        omega
      rwa [Slice.stop_moved constant start passed]

theorem spaced_moved {move : Nat → Nat} (order : InOrder p stop comments)
    (constant : ∀ i, p ≤ i → i ≤ stop → move i = move p + (i - p)) :
    spaced (move p) (comments.map (Slice.moved move)) text = spaced p comments text := by
  induction comments generalizing p text with
  | nil => rfl
  | cons comment comments ih =>
    have inside : comment.start ≤ comment.stop := Nat.le_add_right _ _
    have start := order.1
    have passed := order.2.le
    have moved := constant comment.start start (Nat.le_trans inside passed)
    have ended := constant comment.stop (Nat.le_trans start inside) passed
    have later := @ih comment.stop (text.drop (comment.stop - p)) order.2 fun i after before => by
      have here := constant i (Nat.le_trans (Nat.le_trans start inside) after) before
      omega
    rw [List.map_cons, spaced, spaced, Slice.stop_moved constant start passed, Slice.moved, moved,
      ended, Nat.add_sub_cancel_left, Nat.add_sub_cancel_left, ← ended, later]

namespace Spacing

variable {tokens more : List Token} {other left : List Char}

theorem append (first : Spacing p text tokens other)
    (second : Spacing (p + text.length) rest more left) :
    Spacing p (text ++ rest) (tokens ++ more) (other ++ left) := by
  induction first with
  | nil => exact second
  | keep c later ih =>
    refine .keep c (ih ?_)
    rwa [Nat.add_assoc, Nat.add_comm 1, ← List.length_cons]
  | comment opens later ih =>
    rw [List.append_assoc]
    refine .comment opens (ih ?_)
    rwa [List.length_append, ← Nat.add_assoc] at second
  | heredoc within later _ ih =>
    rw [List.append_assoc, List.append_assoc]
    refine .heredoc within (ih ?_)
    rwa [List.length_append, ← Nat.add_assoc] at second
  | token plain later ih => exact .token plain (ih second)

theorem same (p : Nat) (text : List Char) (plain : ∀ token ∈ tokens, token.isPlain = true) :
    Spacing p text tokens text := by
  induction text generalizing p with
  | nil =>
    induction tokens with
    | nil => exact .nil p
    | cons token tokens ih =>
      exact .token (plain token List.mem_cons_self)
        (ih fun token member => plain token (List.mem_cons_of_mem _ member))
  | cons c text ih => exact .keep c (ih (p + 1))

theorem eq_of_plain (spacing : Spacing p text tokens other)
    (plain : ∀ token ∈ tokens, token.isPlain = true) : other = text := by
  induction spacing with
  | nil => rfl
  | keep c later ih => rw [ih plain]
  | comment => cases plain _ List.mem_cons_self
  | heredoc => cases plain _ List.mem_cons_self
  | token _ later ih => exact ih fun token member => plain token (List.mem_cons_of_mem _ member)

theorem inOrder (spacing : Spacing p text tokens other) :
    InOrder p (p + text.length) (commentsOf tokens) := by
  induction spacing with
  | nil p => exact Nat.le_add_right p 0
  | @keep p text other tokens c later ih =>
    rw [Nat.add_assoc, Nat.add_comm 1, ← List.length_cons] at ih
    exact ih.mono (Nat.le_add_right _ _)
  | @comment slice text other tokens opens later ih =>
    rw [List.length_append, ← Nat.add_assoc]
    exact ⟨Nat.le_refl _, ih⟩
  | @heredoc slice text body other inside tokens within later first second =>
    rw [List.length_append, ← Nat.add_assoc]
    exact first.append second
  | token plain later ih => rwa [commentsOf, Token.comments_of_isPlain plain, List.nil_append]

theorem stand (spacing : Spacing p text tokens other) : Stand p (commentsOf tokens) text := by
  induction spacing with
  | nil => exact .nil _ _
  | keep c later ih => exact ih.append_left [c] later.inOrder
  | comment opens later ih =>
    exact (Stand.comment opens _).append (ih.append_left _ later.inOrder)
  | heredoc within later first second =>
    exact (first.append_right _).append (second.append_left _ later.inOrder)
  | token plain later ih => rwa [commentsOf, Token.comments_of_isPlain plain, List.nil_append]

theorem spaced_eq (spacing : Spacing p text tokens other) :
    spaced p (commentsOf tokens) text = other := by
  induction spacing with
  | nil => rfl
  | keep c later ih => rw [spaced_cons c later.inOrder, ih]
  | @comment slice text other tokens opens later ih =>
    rw [show commentsOf (.comment slice :: tokens) = slice :: commentsOf tokens from rfl,
      spaced_comment, ih]
  | @heredoc slice text body other inside tokens within later first second =>
    rw [show commentsOf (.heredoc slice inside :: tokens) = commentsOf inside ++ commentsOf tokens
      from rfl, spaced_append within.inOrder later.inOrder, first]
    exact congrArg (body ++ ·) second
  | token plain later ih => rwa [commentsOf, Token.comments_of_isPlain plain, List.nil_append]

end Spacing

end TerraDoc.Hcl
