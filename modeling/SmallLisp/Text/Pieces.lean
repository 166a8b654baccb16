/-! # Pieces of a text

Cutting a text at every occurrence of a character, and putting pieces together again.  The same
goes for bytes.
-/
namespace SmallLisp.Text

variable {α : Type}

/-- The pieces of a text between the occurrences of a character; there is one piece more than
there are occurrences. -/
def pieces [DecidableEq α] (separator : α) : List α → List (List α)
  | [] => [[]]
  | c :: rest =>
    if c = separator then [] :: pieces separator rest
    else
      match pieces separator rest with
      | [] => [[c]]
      | piece :: more => (c :: piece) :: more

/-- The pieces with a text between each two. -/
def join (between : List α) : List (List α) → List α
  | [] => []
  | [piece] => piece
  | piece :: more => piece ++ between ++ join between more

theorem pieces_ne_nil [DecidableEq α] (separator : α) (s : List α) : pieces separator s ≠ [] := by
  cases s with
  | nil => simp [pieces]
  | cons c rest =>
    unfold pieces
    split
    · simp
    · split <;> simp

/-- Joining the pieces of a text gives the text back. -/
theorem join_pieces [DecidableEq α] (separator : α) (s : List α) :
    join [separator] (pieces separator s) = s := by
  induction s with
  | nil => rfl
  | cons c rest ih =>
    unfold pieces
    cases h : pieces separator rest with
    | nil => exact absurd h (pieces_ne_nil _ _)
    | cons piece more =>
      rw [h] at ih
      split
      · next hc => subst hc; simp [join, ih]
      · cases more with
        | nil => simpa [join] using ih
        | cons p ps => simpa [join] using ih

end SmallLisp.Text
