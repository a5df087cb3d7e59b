import Abbrev.Fault

/-! Why a template is not what a line means. Most reasons are silent, since another template may be
meant; some are worth reporting when none is. -/

namespace Abbrev

inductive Mismatch where
  | argumentCount
  | wordCount
  | word
  | key
  | value
deriving DecidableEq, Repr

def Mismatch.text : Mismatch → String
  | argumentCount => "argument count differs"
  | wordCount => "signature word count differs"
  | word => "signature word mismatch"
  | key => "no option matches key"
  | value => "option value does not convert"

inductive Rejection where
  | silent (reason : Mismatch)
  | report (fault : Fault)

def Rejection.fault? : Rejection → Option Fault
  | silent _ => none
  | report f => some f

end Abbrev
