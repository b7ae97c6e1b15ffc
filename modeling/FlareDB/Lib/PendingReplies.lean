import FlareDB.Lib.KeyedStore
import Mathlib.Logic.Function.Basic

/-! Replies routed to the callers that wait for them. A caller registers a key
and holds the receiving end of a channel for one reply, whose sending end the
table keeps under the key. Sending ends that are replaced or thrown away close
the channel. -/
namespace PendingReplies

open KeyedStore

variable {κ ρ : Type} [DecidableEq κ]

/-- The receiving end of a caller. A reply is named by its place among those
that have been read. -/
inductive Slot where
  | unused
  | waiting
  | answered (reply : Nat)
  | closed
deriving DecidableEq

/-- What a caller registered, and how many replies had been read by then. -/
structure Ticket (κ : Type) where
  key : κ
  since : Nat

structure Table (κ ρ : Type) where
  pending : Store κ Nat
  tickets : Nat → Option (Ticket κ)
  slots : Nat → Slot
  replies : List ρ

namespace Table

def empty : Table κ ρ where
  pending := ∅
  tickets _ := none
  slots _ := .unused
  replies := []

/-- Throw away the sending end that a key keeps for a caller. -/
def close (table : Table κ ρ) (key : κ) (caller : Nat) : Table κ ρ :=
  { table with
    pending := table.pending.erase key
    slots := Function.update table.slots caller .closed }

def revoke (table : Table κ ρ) (key : κ) : Table κ ρ :=
  match table.pending.lookup key with
  | none => table
  | some caller => table.close key caller

/-- Keep the sending end of a new channel under a key nobody is kept under. -/
def keep (table : Table κ ρ) (caller : Nat) (key : κ) : Table κ ρ :=
  { table with
    pending := table.pending.insert key caller
    tickets := Function.update table.tickets caller (some ⟨key, table.replies.length⟩)
    slots := Function.update table.slots caller .waiting }

def register (table : Table κ ρ) (caller : Nat) (key : κ) : Table κ ρ :=
  (table.revoke key).keep caller key

def note (table : Table κ ρ) (reply : ρ) : Table κ ρ :=
  { table with replies := table.replies ++ [reply] }

def answer (table : Table κ ρ) (caller place : Nat) : Table κ ρ :=
  { table with slots := Function.update table.slots caller (.answered place) }

/-- Hand a reply to the caller that waits for it, if there is one and it still
listens. The sending end is used up in either case. -/
def deliver (table : Table κ ρ) (key : ρ → κ) (listens : Nat → Bool) (reply : ρ) : Table κ ρ :=
  match table.pending.lookup (key reply) with
  | none => table.note reply
  | some caller =>
      let noted := (table.close (key reply) caller).note reply
      if listens caller then noted.answer caller table.replies.length else noted

/-- Throw every sending end away. -/
def clear (table : Table κ ρ) : Table κ ρ :=
  { table with
    pending := ∅
    slots := fun caller => if table.slots caller = .waiting then .closed else table.slots caller }

/-- The replies read since a ticket was issued, up to the `count`th, leave its
key out. -/
def Skipped (table : Table κ ρ) (key : ρ → κ) (ticket : Ticket κ) (count : Nat) : Prop :=
  ∀ place reply, ticket.since ≤ place → place < count → table.replies[place]? = some reply →
    key reply ≠ ticket.key

/-- A caller waits exactly while the table keeps its sending end, and what it
gets is the first reply to its key since it registered. -/
structure Routed (key : ρ → κ) (table : Table κ ρ) : Prop where
  owner : ∀ id caller, table.pending.lookup id = some caller → table.slots caller = .waiting ∧
    ∃ ticket, table.tickets caller = some ticket ∧ ticket.key = id
  held : ∀ caller, table.slots caller = .waiting →
    ∃ ticket, table.tickets caller = some ticket ∧ table.pending.lookup ticket.key = some caller
  unread : ∀ caller ticket, table.slots caller = .waiting → table.tickets caller = some ticket →
    table.Skipped key ticket table.replies.length
  read : ∀ caller place, table.slots caller = .answered place →
    ∃ ticket reply, table.tickets caller = some ticket ∧ table.replies[place]? = some reply ∧
      key reply = ticket.key ∧ ticket.since ≤ place ∧ table.Skipped key ticket place
  unique : ∀ caller other place, table.slots caller = .answered place →
    table.slots other = .answered place → caller = other
  unused : ∀ caller, table.tickets caller = none ↔ table.slots caller = .unused
  issued : ∀ caller ticket, table.tickets caller = some ticket →
    ticket.since ≤ table.replies.length

variable {key : ρ → κ}

/-- In an empty table nothing is misrouted. -/
theorem Routed.empty : (empty : Table κ ρ).Routed key where
  owner _ _ h := by simp [Table.empty] at h
  held _ h := by simp [Table.empty] at h
  unread _ _ h := by simp [Table.empty] at h
  read _ _ h := by simp [Table.empty] at h
  unique _ _ _ h := by simp [Table.empty] at h
  unused _ := ⟨fun _ => rfl, fun _ => rfl⟩
  issued _ _ h := by simp [Table.empty] at h

/-- An answered caller has a reply that was delivered. -/
theorem Routed.answered_lt {table : Table κ ρ} (h : table.Routed key) {caller place : Nat}
    (hAnswered : table.slots caller = .answered place) : place < table.replies.length := by
  obtain ⟨_, _, _, hReply, _⟩ := h.read caller place hAnswered
  exact (List.getElem?_eq_some_iff.mp hReply).1

/-- A caller is kept under the key of its ticket only. -/
theorem Routed.owner_ticket {table : Table κ ρ} (h : table.Routed key) {id : κ} {caller : Nat}
    (hPending : table.pending.lookup id = some caller) {ticket : Ticket κ}
    (hTicket : table.tickets caller = some ticket) : ticket.key = id := by
  obtain ⟨_, other, hOther, hKey⟩ := h.owner id caller hPending
  rw [hTicket] at hOther
  cases hOther
  exact hKey

/-- Throwing away a sending end keeps replies with their callers. -/
theorem Routed.close {table : Table κ ρ} (h : table.Routed key) {id : κ} {closed : Nat}
    (hPending : table.pending.lookup id = some closed) : (table.close id closed).Routed key := by
  have hApart : ∀ other caller, other ≠ id → table.pending.lookup other = some caller →
      caller ≠ closed := by
    intro other caller hOther hKept hSame
    subst hSame
    obtain ⟨_, ticket, hTicket, hKey⟩ := h.owner other caller hKept
    exact hOther (hKey.symm.trans (h.owner_ticket hPending hTicket))
  have hSlot : ∀ caller slot, (table.close id closed).slots caller = slot → slot ≠ .closed →
      caller ≠ closed ∧ table.slots caller = slot := by
    intro caller slot hAfter hOpen
    by_cases hSame : caller = closed
    · subst hSame
      exact absurd (by simpa [Table.close] using hAfter.symm) hOpen
    · exact ⟨hSame, by simpa [Table.close, Function.update_of_ne hSame] using hAfter⟩
  constructor
  · intro other caller hKept
    by_cases hOther : other = id
    · subst hOther
      rw [show (table.close other closed).pending.lookup other = none from AList.lookup_erase ..]
        at hKept
      cases hKept
    · have hBefore : table.pending.lookup other = some caller := by
        simpa [Table.close, AList.lookup_erase_ne hOther] using hKept
      obtain ⟨hWaiting, hTicket⟩ := h.owner other caller hBefore
      refine ⟨?_, hTicket⟩
      simpa [Table.close, Function.update_of_ne (hApart other caller hOther hBefore)] using hWaiting
  · intro caller hWaiting
    obtain ⟨hSame, hBefore⟩ := hSlot caller .waiting hWaiting (by simp)
    obtain ⟨ticket, hTicket, hKept⟩ := h.held caller hBefore
    have hKey : ticket.key ≠ id := by
      intro hKey
      rw [hKey, hPending] at hKept
      exact hSame (Option.some.inj hKept).symm
    exact ⟨ticket, hTicket, by simpa [Table.close, AList.lookup_erase_ne hKey] using hKept⟩
  · intro caller ticket hWaiting hTicket
    exact h.unread caller ticket (hSlot caller .waiting hWaiting (by simp)).2 hTicket
  · intro caller place hAnswered
    exact h.read caller place (hSlot caller _ hAnswered (by simp)).2
  · intro caller other place hAnswered hOther
    exact h.unique caller other place (hSlot caller _ hAnswered (by simp)).2
      (hSlot other _ hOther (by simp)).2
  · intro caller
    by_cases hSame : caller = closed
    · subst hSame
      obtain ⟨_, ticket, hTicket, _⟩ := h.owner id caller hPending
      simp [Table.close, hTicket]
    · simpa [Table.close, Function.update_of_ne hSame] using h.unused caller
  · exact h.issued

/-- So does revoking an id. -/
theorem Routed.revoke {table : Table κ ρ} (h : table.Routed key) (id : κ) :
    (table.revoke id).Routed key := by
  unfold Table.revoke
  split
  · exact h
  next hPending => exact h.close hPending

theorem revoke_tickets (table : Table κ ρ) (id : κ) : (table.revoke id).tickets = table.tickets := by
  unfold revoke
  cases table.pending.lookup id <;> rfl

/-- Nobody waits for a revoked id. -/
theorem lookup_revoke (table : Table κ ρ) (id : κ) : (table.revoke id).pending.lookup id = none := by
  unfold revoke
  split
  next hNone => exact hNone
  · exact AList.lookup_erase ..

/-- Keeping a caller under a free id keeps replies with their callers. -/
theorem Routed.keep {table : Table κ ρ} (h : table.Routed key) {caller : Nat} {id : κ}
    (hNone : table.pending.lookup id = none) (hFresh : table.tickets caller = none) :
    (table.keep caller id).Routed key := by
  have hUnused := (h.unused caller).mp hFresh
  have hSlot : ∀ other, other ≠ caller → (table.keep caller id).slots other = table.slots other :=
    fun other hOther => Function.update_of_ne hOther _ _
  have hTickets : ∀ other, other ≠ caller →
      (table.keep caller id).tickets other = table.tickets other :=
    fun other hOther => Function.update_of_ne hOther _ _
  have hAnswered : ∀ other place, (table.keep caller id).slots other = .answered place →
      other ≠ caller ∧ table.slots other = .answered place := by
    intro other place hAfter
    have hOther : other ≠ caller := by
      intro hSame
      simp [Table.keep, hSame] at hAfter
    exact ⟨hOther, (hSlot other hOther).symm.trans hAfter⟩
  constructor
  · intro other owner hKept
    by_cases hOther : other = id
    · subst hOther
      have hOwner : owner = caller := by simpa [Table.keep] using hKept.symm
      subst hOwner
      exact ⟨Function.update_self .., _, Function.update_self .., rfl⟩
    · have hBefore : table.pending.lookup other = some owner := by
        simpa [Table.keep, AList.lookup_insert_ne hOther] using hKept
      obtain ⟨hWaiting, ticket, hTicket, hKey⟩ := h.owner other owner hBefore
      have hNe : owner ≠ caller := by
        intro hSame
        rw [hSame, hUnused] at hWaiting
        cases hWaiting
      exact ⟨(hSlot owner hNe).trans hWaiting, ticket, (hTickets owner hNe).trans hTicket, hKey⟩
  · intro other hWaiting
    by_cases hSame : other = caller
    · subst hSame
      exact ⟨_, Function.update_self .., AList.lookup_insert ..⟩
    · obtain ⟨ticket, hTicket, hKept⟩ := h.held other ((hSlot other hSame).symm.trans hWaiting)
      have hKey : ticket.key ≠ id := by
        intro hKey
        rw [hKey, hNone] at hKept
        cases hKept
      exact ⟨ticket, (hTickets other hSame).trans hTicket, (AList.lookup_insert_ne hKey).trans hKept⟩
  · intro other ticket hWaiting hTicket
    by_cases hSame : other = caller
    · subst hSame
      have hIssued : ticket = ⟨id, table.replies.length⟩ := by
        simpa [Table.keep] using hTicket.symm
      subst hIssued
      intro place reply hSince hPlace
      exact absurd hPlace (Nat.not_lt.mpr hSince)
    · exact h.unread other ticket ((hSlot other hSame).symm.trans hWaiting)
        ((hTickets other hSame).symm.trans hTicket)
  · intro other place hAfter
    obtain ⟨hOther, hBefore⟩ := hAnswered other place hAfter
    obtain ⟨ticket, reply, hTicket, hRest⟩ := h.read other place hBefore
    exact ⟨ticket, reply, (hTickets other hOther).trans hTicket, hRest⟩
  · intro first second place hFirst hSecond
    exact h.unique first second place (hAnswered first place hFirst).2
      (hAnswered second place hSecond).2
  · intro other
    by_cases hSame : other = caller
    · simp [Table.keep, hSame]
    · rw [hSlot other hSame, hTickets other hSame]
      exact h.unused other
  · intro other ticket hTicket
    by_cases hSame : other = caller
    · subst hSame
      have hIssued : ticket = ⟨id, table.replies.length⟩ := by
        simpa [Table.keep] using hTicket.symm
      subst hIssued
      exact Nat.le_refl _
    · exact h.issued other ticket ((hTickets other hSame).symm.trans hTicket)

/-- So does registering a caller, whoever waited before. -/
theorem Routed.register {table : Table κ ρ} (h : table.Routed key) {caller : Nat} (id : κ)
    (hFresh : table.tickets caller = none) : (table.register caller id).Routed key :=
  (h.revoke id).keep (lookup_revoke table id) (by rw [revoke_tickets, hFresh])

omit [DecidableEq κ] in
/-- A further reply is skipped by those it is not for. -/
theorem Skipped.note {table : Table κ ρ} {ticket : Ticket κ} {count : Nat} (reply : ρ)
    (h : table.Skipped key ticket count) (hCount : count ≤ table.replies.length) :
    (table.note reply).Skipped key ticket count := by
  intro place other hSince hPlace hOther
  refine h place other hSince hPlace ?_
  rwa [Table.note, List.getElem?_append_left (Nat.lt_of_lt_of_le hPlace hCount)] at hOther

/-- A reply to a key nobody is kept under is dropped. -/
theorem Routed.note {table : Table κ ρ} (h : table.Routed key) {reply : ρ}
    (hNone : table.pending.lookup (key reply) = none) : (table.note reply).Routed key := by
  constructor
  · exact h.owner
  · exact h.held
  · intro caller ticket hWaiting hTicket place other hSince hPlace hOther
    rw [Table.note, List.getElem?_append] at hOther
    split at hOther
    next hOld => exact h.unread caller ticket hWaiting hTicket place other hSince hOld hOther
    · have hReply : other = reply := List.mem_singleton.mp (List.mem_of_getElem? hOther)
      subst hReply
      intro hKey
      obtain ⟨kept, hKept, hOwner⟩ := h.held caller hWaiting
      rw [show table.tickets caller = some ticket from hTicket] at hKept
      cases hKept
      rw [← hKey, hNone] at hOwner
      cases hOwner
  · intro caller place hAnswered
    obtain ⟨ticket, other, hTicket, hOther, hKey, hSince, hSkipped⟩ := h.read caller place hAnswered
    have hPlace := h.answered_lt hAnswered
    refine ⟨ticket, other, hTicket, ?_, hKey, hSince, hSkipped.note reply (Nat.le_of_lt hPlace)⟩
    rw [Table.note, List.getElem?_append_left hPlace, hOther]
  · exact h.unique
  · exact h.unused
  · intro caller ticket hTicket
    refine Nat.le_trans (h.issued caller ticket hTicket) ?_
    simp [Table.note]

/-- The caller whose sending end a reply has used up may be given that reply. -/
theorem Routed.answer {table : Table κ ρ} (h : table.Routed key) {caller place : Nat}
    {ticket : Ticket κ} {reply : ρ} (hClosed : table.slots caller = .closed)
    (hTicket : table.tickets caller = some ticket) (hReply : table.replies[place]? = some reply)
    (hKey : key reply = ticket.key) (hSince : ticket.since ≤ place)
    (hSkipped : table.Skipped key ticket place)
    (hFresh : ∀ other, table.slots other ≠ .answered place) :
    (table.answer caller place).Routed key := by
  have hSlot : ∀ other slot, (table.answer caller place).slots other = slot →
      slot ≠ .answered place → other ≠ caller ∧ table.slots other = slot := by
    intro other slot hAfter hOpen
    by_cases hSame : other = caller
    · subst hSame
      exact absurd (by simpa [Table.answer] using hAfter.symm) hOpen
    · exact ⟨hSame, by simpa [Table.answer, Function.update_of_ne hSame] using hAfter⟩
  have hHere : ∀ other, (table.answer caller place).slots other = .answered place →
      other = caller := by
    intro other hAfter
    by_contra hSame
    exact hFresh other (by simpa [Table.answer, Function.update_of_ne hSame] using hAfter)
  constructor
  · intro id owner hKept
    obtain ⟨hWaiting, hRest⟩ := h.owner id owner hKept
    refine ⟨?_, hRest⟩
    have hNe : owner ≠ caller := by
      intro hSame
      rw [hSame, hClosed] at hWaiting
      cases hWaiting
    simpa [Table.answer, Function.update_of_ne hNe] using hWaiting
  · intro other hWaiting
    exact h.held other (hSlot other _ hWaiting (by simp)).2
  · intro other kept hWaiting hKept
    exact h.unread other kept (hSlot other _ hWaiting (by simp)).2 hKept
  · intro other position hAnswered
    by_cases hPosition : position = place
    · subst hPosition
      have hOther := hHere other hAnswered
      subst hOther
      exact ⟨ticket, reply, hTicket, hReply, hKey, hSince, hSkipped⟩
    · exact h.read other position (hSlot other _ hAnswered (by simpa using hPosition)).2
  · intro first second position hFirst hSecond
    by_cases hPosition : position = place
    · subst hPosition
      exact (hHere first hFirst).trans (hHere second hSecond).symm
    · exact h.unique first second position (hSlot first _ hFirst (by simpa using hPosition)).2
        (hSlot second _ hSecond (by simpa using hPosition)).2
  · intro other
    by_cases hSame : other = caller
    · simp [Table.answer, hSame, hTicket]
    · simpa [Table.answer, Function.update_of_ne hSame] using h.unused other
  · exact h.issued

/-- Delivering a reply keeps replies with their callers. -/
theorem Routed.deliver {table : Table κ ρ} (h : table.Routed key) (listens : Nat → Bool)
    (reply : ρ) : (table.deliver key listens reply).Routed key := by
  unfold Table.deliver
  split
  next hNone => exact h.note hNone
  next caller hPending =>
    obtain ⟨hWaiting, ticket, hTicket, hKey⟩ := h.owner _ caller hPending
    have hUnread := h.unread caller ticket hWaiting hTicket
    have hClosed := h.close hPending
    have hNone : (table.close (key reply) caller).pending.lookup (key reply) = none :=
      AList.lookup_erase ..
    have hNoted : ((table.close (key reply) caller).note reply).Routed key := hClosed.note hNone
    dsimp only
    split
    · have hSkipped : (table.close (key reply) caller).Skipped key ticket table.replies.length :=
        hUnread
      have hReply : ((table.close (key reply) caller).note reply).replies[table.replies.length]? =
          some reply := by
        simp [Table.note, Table.close]
      refine hNoted.answer (Function.update_self ..) hTicket hReply hKey.symm
        (h.issued caller ticket hTicket) (hSkipped.note reply (Nat.le_refl _)) ?_
      intro other hAnswered
      have hPlace : table.replies.length < (table.close (key reply) caller).replies.length :=
        hClosed.answered_lt hAnswered
      exact Nat.lt_irrefl _ hPlace
    · exact hNoted

/-- So does throwing every sending end away. -/
theorem Routed.clear {table : Table κ ρ} (h : table.Routed key) : table.clear.Routed key := by
  have hSlot : ∀ caller slot, table.clear.slots caller = slot → slot ≠ .closed →
      slot ≠ .waiting ∧ table.slots caller = slot := by
    intro caller slot hAfter hOpen
    simp only [Table.clear] at hAfter
    split at hAfter
    · exact absurd hAfter.symm hOpen
    next hWaiting =>
      subst hAfter
      exact ⟨hWaiting, rfl⟩
  constructor
  · intro id caller hKept
    simp [Table.clear] at hKept
  · intro caller hWaiting
    exact absurd rfl (hSlot caller .waiting hWaiting (by simp)).1
  · intro caller ticket hWaiting
    exact absurd rfl (hSlot caller .waiting hWaiting (by simp)).1
  · intro caller place hAnswered
    exact h.read caller place (hSlot caller _ hAnswered (by simp)).2
  · intro caller other place hAnswered hOther
    exact h.unique caller other place (hSlot caller _ hAnswered (by simp)).2
      (hSlot other _ hOther (by simp)).2
  · intro caller
    simp only [Table.clear]
    split
    next hWaiting => simp [h.unused caller, hWaiting]
    · exact h.unused caller
  · exact h.issued

/-! What an operation leaves alone. -/

theorem register_tickets (table : Table κ ρ) (caller : Nat) (id : κ) :
    (table.register caller id).tickets =
      Function.update table.tickets caller (some ⟨id, (table.revoke id).replies.length⟩) := by
  rw [register, keep, revoke_tickets]

theorem deliver_tickets (table : Table κ ρ) (listens : Nat → Bool) (reply : ρ) :
    (table.deliver key listens reply).tickets = table.tickets := by
  unfold deliver
  split
  · rfl
  · dsimp only
    split <;> rfl

/-- Replies that have been handed out stay with their callers. -/
def Keeps (before after : Table κ ρ) : Prop :=
  ∀ caller place reply, before.slots caller = .answered place →
    before.replies[place]? = some reply →
      after.slots caller = .answered place ∧ after.replies[place]? = some reply

omit [DecidableEq κ] in
/-- What is kept step by step is kept. -/
theorem Keeps.trans {first second third : Table κ ρ} (h : first.Keeps second)
    (hNext : second.Keeps third) : first.Keeps third := by
  intro caller place reply hSlot hReply
  obtain ⟨hMiddle, hMiddleReply⟩ := h caller place reply hSlot hReply
  exact hNext caller place reply hMiddle hMiddleReply

omit [DecidableEq κ] in
/-- A further reply takes none back. -/
theorem Keeps.note (table : Table κ ρ) (reply : ρ) : table.Keeps (table.note reply) := by
  intro caller place other hSlot hOther
  refine ⟨hSlot, ?_⟩
  rw [Table.note, List.getElem?_append_left (List.getElem?_eq_some_iff.mp hOther).1, hOther]

omit [DecidableEq κ] in
/-- Anything may happen to a caller who has no answer yet. -/
theorem Keeps.update {table after : Table κ ρ} {changed : Nat} {slot : Slot}
    (hSlots : after.slots = Function.update table.slots changed slot)
    (hReplies : after.replies = table.replies)
    (hOpen : ∀ place, table.slots changed ≠ .answered place) : table.Keeps after := by
  intro caller place reply hSlot hReply
  have hNe : caller ≠ changed := by
    intro hSame
    exact hOpen place (hSame ▸ hSlot)
  rw [hSlots, hReplies, Function.update_of_ne hNe]
  exact ⟨hSlot, hReply⟩

theorem Routed.keeps_revoke {table : Table κ ρ} (h : table.Routed key) (id : κ) :
    table.Keeps (table.revoke id) := by
  unfold Table.revoke
  split
  · exact fun _ _ _ hSlot hReply => ⟨hSlot, hReply⟩
  next caller hPending =>
    refine Keeps.update rfl rfl fun place => ?_
    simp [(h.owner id caller hPending).1]

/-- Registering takes no answer back. -/
theorem Routed.keeps_register {table : Table κ ρ} (h : table.Routed key) {caller : Nat} (id : κ)
    (hFresh : table.tickets caller = none) : table.Keeps (table.register caller id) := by
  refine (h.keeps_revoke id).trans (Keeps.update rfl rfl fun place => ?_)
  rw [((h.revoke id).unused caller).mp (by rw [revoke_tickets, hFresh])]
  simp

/-- Nor does delivering. -/
theorem Routed.keeps_deliver {table : Table κ ρ} (h : table.Routed key) (listens : Nat → Bool)
    (reply : ρ) : table.Keeps (table.deliver key listens reply) := by
  unfold Table.deliver
  split
  · exact Keeps.note table reply
  next caller hPending =>
    have hClosed : table.Keeps (table.close (key reply) caller) := by
      refine Keeps.update rfl rfl fun place => ?_
      simp [(h.owner _ caller hPending).1]
    have hNoted := hClosed.trans (Keeps.note (table.close (key reply) caller) reply)
    dsimp only
    split
    · refine hNoted.trans (Keeps.update rfl rfl fun place => ?_)
      simp [Table.note, Table.close]
    · exact hNoted

omit [DecidableEq κ] in
/-- Nor does throwing every sending end away. -/
theorem keeps_clear (table : Table κ ρ) : table.Keeps table.clear := by
  intro caller place reply hSlot hReply
  exact ⟨by simp [clear, hSlot], hReply⟩

end Table

end PendingReplies
