import CoreBanking.Lib.Infix
import CoreBanking.Services

/-!
# What the messages say

The coordinator looks for the words of a guard in the message of an error. A
message that quotes an id has them if the id has.
-/

namespace CoreBanking

namespace TransferCoordinatorService

theorem includes_iff {text part : String} : includes text part = true ↔ part.toList <:+: text.toList := by
  unfold includes
  rw [List.any_eq_true, List.infix_iff_prefix_suffix]
  constructor
  · rintro ⟨rest, hrest, hpart⟩
    exact ⟨rest, List.isPrefixOf_iff_prefix.mp hpart, (List.mem_tails _ _).mp hrest⟩
  · rintro ⟨rest, hpart, hrest⟩
    exact ⟨rest, (List.mem_tails _ _).mpr hrest, List.isPrefixOf_iff_prefix.mpr hpart⟩

/-- The text has the words of a guard in it. -/
def mentionsGuard (text : String) : Bool := terminalMessages.any fun message => includes text message

/-- A message that quotes `text` has the words of a guard in it if `text` has. -/
theorem mentionsGuard_quoted {text message : String} (before after : List Char)
    (hmessage : message.toList = before ++ (text.toList ++ after))
    (hapart : ∀ words ∈ terminalMessages, Infix.Apart before words.toList after) :
    mentionsGuard message = mentionsGuard text := by
  unfold mentionsGuard
  rw [Bool.eq_iff_iff, List.any_eq_true, List.any_eq_true]
  refine exists_congr fun words => and_congr_right fun hwords => ?_
  rw [includes_iff, includes_iff, hmessage, (hapart words hwords).between_iff]

theorem registry_terminal {transferId : String} {leg : Leg} {e : Failure}
    (he : e ∈ [TransactionRegistryService.alreadyInProgress (legId transferId leg),
      TransactionRegistryService.previouslyFailed (legId transferId leg),
      TransactionRegistryService.differentMovement (legId transferId leg)]) :
    isTerminalDomainError e = mentionsGuard transferId := by
  have hquoted : ∀ rest : String, (s!"Transaction {legId transferId leg}{rest}").toList =
      "Transaction ".toList ++ (transferId.toList ++ (leg.suffix.toList ++ rest.toList)) := by
    intro rest
    simp only [toString, legId, String.toList_append, List.append_assoc]
  simp only [List.mem_cons, List.not_mem_nil, or_false] at he
  rcases he with rfl | rfl | rfl
  · exact mentionsGuard_quoted _ _ (hquoted " is already in progress") (by cases leg <;> decide +kernel)
  · exact mentionsGuard_quoted _ _ (hquoted " previously failed. Retry with a new transactionId.")
      (by cases leg <;> decide +kernel)
  · exact mentionsGuard_quoted _ _ (hquoted " has already been used for a different money movement")
      (by cases leg <;> decide +kernel)

theorem writeConflict_terminal (id : String) :
    isTerminalDomainError (AccountRepository.writeConflict id) = mentionsGuard id ∧
      isTerminalDomainError (TransferRepository.writeConflict id) = mentionsGuard id := by
  have hquoted : ∀ start : String, (s!"{start}{id}. All {MAX_WRITE_ATTEMPTS} write attempts failed.").toList =
      start.toList ++ (id.toList ++ ". All 3 write attempts failed.".toList) := by
    intro start
    have hattempts : Nat.repr MAX_WRITE_ATTEMPTS = "3" := by decide
    simp only [toString, hattempts, String.toList_append, List.append_assoc]
    rfl
  exact ⟨mentionsGuard_quoted _ _ (hquoted "Concurrent modification detected for account ") (by decide +kernel),
    mentionsGuard_quoted _ _ (hquoted "Concurrent modification detected for transfer ") (by decide +kernel)⟩

theorem mentionsGuard_statusText (transfer : TransferAggregate) : mentionsGuard transfer.statusText = false := by
  unfold TransferAggregate.statusText
  cases transfer.status with
  | none => decide +kernel
  | some status => cases status <;> decide +kernel

/-- What a finished leg is refused with names the status of the transfer, and no guard of an account. -/
theorem finishCommand_terminal {leg : Leg} {transferId : String} {context : CommandContext} {stamp : Stamp}
    {transfer : TransferAggregate} {e : Failure}
    (h : (leg.finishCommand transferId context).operation stamp transfer = .error e) :
    isTerminalDomainError e = false := by
  rw [← mentionsGuard_statusText transfer]
  have hquoted : ∀ start : String,
      (s!"{start}{transfer.statusText}").toList = start.toList ++ (transfer.statusText.toList ++ []) := by
    intro start
    simp only [toString, String.toList_append, List.append_nil]
  cases leg with
  | debit =>
    simp only [Leg.finishCommand, TransferCommand.operation, TransferAggregate.markDebited] at h
    split at h
    · cases h
      exact mentionsGuard_quoted _ _ (hquoted "Cannot mark transfer debited from status ") (by decide +kernel)
    · cases h
  | credit =>
    simp only [Leg.finishCommand, TransferCommand.operation, TransferAggregate.complete] at h
    split at h
    · cases h
      exact mentionsGuard_quoted _ _ (hquoted "Cannot complete transfer from status ") (by decide +kernel)
    · cases h
  | compensation =>
    simp only [Leg.finishCommand, TransferCommand.operation, TransferAggregate.markCompensated] at h
    split at h
    · cases h
      exact mentionsGuard_quoted _ _ (hquoted "Cannot mark transfer compensated from status ") (by decide +kernel)
    · cases h

end TransferCoordinatorService

end CoreBanking
