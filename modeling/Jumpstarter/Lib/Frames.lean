import Mathlib.Data.List.Basic

/-!
# Frames that end with a separator

Messages on a byte stream, each followed by a separator that no message contains. A reader that has
collected a line without separators and meets one has collected the next message (`line_eq`); at the end
of the stream it has collected nothing (`nil_of_line`).
-/

namespace Jumpstarter.Lib

variable {α β : Type} {body : α → List β} {sep : β} {line rest : List β} {msgs : List α}

/-- The messages, each with the separator after it. -/
def frames (body : α → List β) (sep : β) (msgs : List α) : List β :=
  msgs.flatMap fun m => body m ++ [sep]

@[simp] theorem frames_nil : frames body sep [] = [] := rfl

@[simp] theorem frames_cons (m : α) : frames body sep (m :: msgs) = body m ++ [sep] ++ frames body sep msgs :=
  rfl

@[simp] theorem frames_append (a b : List α) :
    frames body sep (a ++ b) = frames body sep a ++ frames body sep b :=
  List.flatMap_append

theorem append_sep_inj {x y u v : List β} (hx : sep ∉ x) (hy : sep ∉ y) (h : x ++ sep :: u = y ++ sep :: v) :
    x = y ∧ u = v := by
  induction x generalizing y with
  | nil =>
    cases y with
    | nil => exact ⟨rfl, (List.cons.inj h).2⟩
    | cons b y => exact absurd (by simp [(List.cons.inj h).1]) hy
  | cons a x ih =>
    cases y with
    | nil => exact absurd (by simp [(List.cons.inj h).1]) hx
    | cons b y =>
      obtain ⟨rfl, htail⟩ := List.cons.inj h
      obtain ⟨rfl, rfl⟩ := ih (fun hm => hx (List.mem_cons_of_mem a hm))
        (fun hm => hy (List.mem_cons_of_mem a hm)) htail
      exact ⟨rfl, rfl⟩

theorem line_eq (hbody : ∀ m, sep ∉ body m) (hline : sep ∉ line)
    (h : line ++ sep :: rest = frames body sep msgs) :
    ∃ m msgs', msgs = m :: msgs' ∧ line = body m ∧ rest = frames body sep msgs' := by
  cases msgs with
  | nil => simp at h
  | cons m msgs =>
    rw [frames_cons, List.append_assoc, List.singleton_append] at h
    obtain ⟨hl, hr⟩ := append_sep_inj hline (hbody m) h
    exact ⟨m, msgs, rfl, hl, hr⟩

theorem nil_of_line (hline : sep ∉ line) (h : line = frames body sep msgs) : msgs = [] := by
  cases msgs with
  | nil => rfl
  | cons m msgs =>
    refine absurd ?_ hline
    rw [h]
    simp

end Jumpstarter.Lib
