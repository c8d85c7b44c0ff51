/-
What a strict reading accepts.

The two readings go through the text in the same way; the strict one has a few more reasons to
stop.  So whatever it accepts the loose one accepts too, as the same document, function by
function and then by induction on the fuel.
-/
import Upkeep.Proofs.Json.Rules

namespace Upkeep.Json

namespace Reader

/-- The second reading accepts whatever the first does, and reads the same. -/
def Accepts {α : Type} (x y : Except Stop α) : Prop := ∀ a, x = .ok a → y = .ok a

namespace Accepts

variable {α β : Type} {x y x' y' : Except Stop α}

theorem refl (x : Except Stop α) : Accepts x x := fun _ h => h

theorem error (stop : Stop) (y : Except Stop α) : Accepts (.error stop) y := by
  intro a h
  cases h

theorem bind {f g : α → Except Stop β} (h : Accepts x y) (hf : ∀ a, Accepts (f a) (g a)) :
    Accepts (x >>= f) (y >>= g) := by
  intro b hb
  obtain ⟨a, hx, hfa⟩ := Except.bind_ok hb
  rw [h a hx]
  exact hf a b hfa

theorem ite {p : Prop} [Decidable p] (h : p → Accepts x y) (h' : ¬p → Accepts x' y') :
    Accepts (if p then x else x') (if p then y else y') := by
  by_cases hp : p
  · rw [if_pos hp, if_pos hp]
    exact h hp
  · rw [if_neg hp, if_neg hp]
    exact h' hp

end Accepts

theorem unicodeEscape_accepts (cs : List Char) :
    Accepts (unicodeEscape true cs) (unicodeEscape false cs) := by
  unfold unicodeEscape
  refine .bind (.refl _) fun ⟨n, r⟩ => ?_
  refine .ite (fun _ => .error _ _) fun _ => .ite (fun _ => ?_) fun _ => .refl _
  cases trailingHalf n r with
  | ok half => exact .refl _
  | error stop => exact .error _ _

theorem escape_accepts (cs : List Char) : Accepts (escape true cs) (escape false cs) := by
  cases cs with
  | nil => exact .refl _
  | cons c cs =>
      unfold escape
      simp only
      cases letterEscape? c with
      | some x => exact .refl _
      | none => exact .ite (fun _ => unicodeEscape_accepts cs) fun _ => .refl _

theorem characters_accepts (fuel : Nat) (cs : List Char) :
    Accepts (characters true fuel cs) (characters false fuel cs) := by
  induction fuel generalizing cs with
  | zero => exact .error _ _
  | succ fuel ih =>
      cases cs with
      | nil => exact .error _ _
      | cons c cs =>
          unfold characters
          refine .ite (fun _ => .refl _) fun _ => .ite (fun _ => ?_) fun _ =>
            .ite (fun _ => .refl _) fun _ => .bind (ih cs) fun _ => .refl _
          refine .bind (escape_accepts cs) ?_
          rintro ⟨x, r⟩
          exact .bind (ih r) fun _ => .refl _

theorem string_accepts (cs : List Char) : Accepts (string true cs) (string false cs) :=
  .bind (characters_accepts _ cs) fun _ => .refl _

theorem number_accepts (negative : Bool) (cs : List Char) :
    Accepts (number true negative cs) (number false negative cs) := by
  unfold number
  refine .bind (.refl _) fun ⟨l, rest⟩ => ?_
  simp only
  cases l.number? with
  | some n => exact .refl _
  | none => exact .error _ _

/-- With this much fuel the loose reading accepts what the strict one does. -/
structure Loosens (fuel : Nat) : Prop where
  tree : ∀ room cs, Accepts (tree true fuel room cs) (tree false fuel room cs)
  items : ∀ room cs, Accepts (items true fuel room cs) (items false fuel room cs)
  moreItems : ∀ room cs, Accepts (moreItems true fuel room cs) (moreItems false fuel room cs)
  members : ∀ room cs, Accepts (members true fuel room cs) (members false fuel room cs)
  moreMembers : ∀ room cs,
    Accepts (moreMembers true fuel room cs) (moreMembers false fuel room cs)
  member : ∀ room cs, Accepts (member true fuel room cs) (member false fuel room cs)

variable {fuel : Nat}

/-- A level more is refused by the strict reading alone. -/
theorem accepts_level {α : Type} {room : Nat} {stop : Stop} {x y : Except Stop α}
    (h : Accepts x y) :
    Accepts (if true = true ∧ room = 0 then .error stop else x)
      (if false = true ∧ room = 0 then .error stop else y) := by
  intro a ha
  split at ha
  · cases ha
  · rw [if_neg (by simp)]
    exact h a ha

theorem tree_accepts (L : Loosens fuel) (room : Nat) (cs : List Char) :
    Accepts (tree true (fuel + 1) room cs) (tree false (fuel + 1) room cs) := by
  unfold tree
  cases skipGap cs with
  | nil => exact .refl _
  | cons c r =>
      refine .ite (fun _ => .refl _) fun _ => .ite (fun _ => .refl _) fun _ =>
        .ite (fun _ => .refl _) fun _ => .ite (fun _ => number_accepts true r) fun _ =>
        .ite (fun _ => number_accepts false (c :: r)) fun _ => .ite (fun _ => ?_) fun _ =>
        .ite (fun _ => ?_) fun _ => .ite (fun _ => ?_) fun _ => .refl _
      · exact .bind (string_accepts r) fun _ => .refl _
      · exact accepts_level (.bind (L.items (room - 1) r) fun _ => .refl _)
      · exact accepts_level (.bind (L.members (room - 1) r) fun _ => .refl _)

theorem items_accepts (L : Loosens fuel) (room : Nat) (cs : List Char) :
    Accepts (items true (fuel + 1) room cs) (items false (fuel + 1) room cs) := by
  unfold items
  cases skipGap cs with
  | nil => exact .refl _
  | cons c r =>
      refine .ite (fun _ => .refl _) fun _ => ?_
      exact .bind (L.tree room (c :: r)) fun ⟨t, rest⟩ =>
        .bind (L.moreItems room rest) fun _ => .refl _

theorem moreItems_accepts (L : Loosens fuel) (room : Nat) (cs : List Char) :
    Accepts (moreItems true (fuel + 1) room cs) (moreItems false (fuel + 1) room cs) := by
  unfold moreItems
  cases skipGap cs with
  | nil => exact .refl _
  | cons c r =>
      refine .ite (fun _ => .refl _) fun _ => .ite (fun _ => ?_) fun _ => .refl _
      cases skipGap r with
      | nil => exact .refl _
      | cons d r =>
          refine .ite (fun _ => .refl _) fun _ => ?_
          exact .bind (L.tree room (d :: r)) fun ⟨t, rest⟩ =>
            .bind (L.moreItems room rest) fun _ => .refl _

theorem members_accepts (L : Loosens fuel) (room : Nat) (cs : List Char) :
    Accepts (members true (fuel + 1) room cs) (members false (fuel + 1) room cs) := by
  unfold members
  cases skipGap cs with
  | nil => exact .refl _
  | cons c r =>
      refine .ite (fun _ => .refl _) fun _ => .ite (fun _ => ?_) fun _ => .refl _
      exact .bind (L.member room r) fun ⟨m, rest⟩ =>
        .bind (L.moreMembers room rest) fun _ => .refl _

theorem moreMembers_accepts (L : Loosens fuel) (room : Nat) (cs : List Char) :
    Accepts (moreMembers true (fuel + 1) room cs) (moreMembers false (fuel + 1) room cs) := by
  unfold moreMembers
  cases skipGap cs with
  | nil => exact .refl _
  | cons c r =>
      refine .ite (fun _ => .refl _) fun _ => .ite (fun _ => ?_) fun _ => .refl _
      cases skipGap r with
      | nil => exact .refl _
      | cons d r =>
          refine .ite (fun _ => ?_) fun _ => .refl _
          exact .bind (L.member room r) fun ⟨m, rest⟩ =>
            .bind (L.moreMembers room rest) fun _ => .refl _

theorem member_accepts (L : Loosens fuel) (room : Nat) (cs : List Char) :
    Accepts (member true (fuel + 1) room cs) (member false (fuel + 1) room cs) := by
  unfold member
  refine .bind (string_accepts cs) fun ⟨k, rest⟩ => ?_
  simp only
  cases skipGap rest with
  | nil => exact .refl _
  | cons c r => exact .ite (fun _ => .bind (L.tree room r) fun _ => .refl _) fun _ => .refl _

theorem loosens (fuel : Nat) : Loosens fuel := by
  induction fuel with
  | zero =>
      constructor <;> intro room cs x h
      · simp [tree] at h
      · simp [items] at h
      · simp [moreItems] at h
      · simp [members] at h
      · simp [moreMembers] at h
      · simp [member] at h
  | succ fuel L =>
      exact ⟨tree_accepts L, items_accepts L, moreItems_accepts L, members_accepts L,
        moreMembers_accepts L, member_accepts L⟩

end Reader

/-- **A text that is read strictly is read loosely as the same document.** -/
theorem readLoose_of_read {text : String} {v : Value} (h : read text = .ok v) :
    ∃ t, readLoose text = some t ∧ t.value? = some v := by
  obtain ⟨t, hdocument, hvalue⟩ := read_ok_iff.mp h
  refine ⟨t, ?_, hvalue⟩
  have hloose : Reader.Accepts (Reader.document true text.toList)
      (Reader.document false text.toList) :=
    .bind ((Reader.loosens _).tree _ _) fun _ => .refl _
  unfold readLoose
  rw [hloose t hdocument]
  rfl

end Upkeep.Json
