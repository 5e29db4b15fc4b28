/-!
# What the code throws

One constructor for each error class the code distinguishes with `instanceof`,
or by the message alone. `store` is the rejection of a client the code does not
own (a database, a broker); the code knows nothing of it but its message.
-/

namespace CoreBanking

inductive Failure where
  | badRequest (message : String)
  | conflict (message : String)
  | wrongExpectedVersion (streamId : String) (expectedVersion actualVersion : Nat)
  | error (message : String)
  | projectionGap (accountId : String) (expectedVersion actualVersion : Nat)
  | retryable (message : String)
  | store (message : String)
  deriving DecidableEq, Repr

def Failure.message : Failure → String
  | .badRequest message => message
  | .conflict message => message
  | .wrongExpectedVersion streamId expectedVersion actualVersion =>
    s!"WrongExpectedVersion for stream {streamId}. Expected {expectedVersion}, actual {actualVersion}"
  | .error message => message
  | .projectionGap accountId expectedVersion actualVersion =>
    s!"Projection gap for account {accountId}. Expected stream version {expectedVersion}, received {actualVersion}"
  | .retryable message => message
  | .store message => message

@[simp] theorem Failure.message_badRequest (message : String) : (badRequest message).message = message := rfl

end CoreBanking
