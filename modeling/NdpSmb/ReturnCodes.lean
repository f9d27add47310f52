import Mathlib.Logic.Basic

/-!
The return codes of the plugin and `util.c`. The numbers of the `ERROR_` codes are
those of the OS/2 toolkit, which is not in the repository.
-/

namespace NdpSmb

def noError : Int := 0
def errorInvalidFunction : Int := 1
def errorFileNotFound : Int := 2
def errorPathNotFound : Int := 3
def errorTooManyOpenFiles : Int := 4
def errorAccessDenied : Int := 5
def errorInvalidHandle : Int := 6
def errorNotEnoughMemory : Int := 8
def errorInvalidBlock : Int := 9
def errorBadFormat : Int := 11
def errorInvalidData : Int := 13
def errorNotSameDevice : Int := 17
def errorWriteProtect : Int := 19
def errorBadUnit : Int := 20
def errorSeek : Int := 25
def errorReadFault : Int := 30
def errorLockViolation : Int := 33
def errorNotSupported : Int := 50
def errorRemNotList : Int := 51
def errorBadNetpath : Int := 53
def errorNetworkBusy : Int := 54
def errorBadNetResp : Int := 58
def errorUnexpNetErr : Int := 59
def errorNetworkAccessDenied : Int := 65
def errorBadDevType : Int := 66
def errorBadNetName : Int := 67
def errorFileExists : Int := 80
def errorInvalidParameter : Int := 87
def errorInterrupt : Int := 95
def errorBrokenPipe : Int := 109
def errorBufferOverflow : Int := 111
def errorDiskFull : Int := 112
def errorInvalidLevel : Int := 124
def errorModNotFound : Int := 126
def errorBusyDrive : Int := 142
def errorNotLocked : Int := 158
def errorBusy : Int := 170
def errorNoChildProcess : Int := 184
def errorBadExeFormat : Int := 193
def errorFilenameExcedRange : Int := 206
def errorInfoNotAvail : Int := 211
def errorTransferTooLong : Int := 222
def errorPipeBusy : Int := 231
def errorCannotCopy : Int := 266
def errorDirectory : Int := 267
def errorTooManyOpens : Int := 269
def errorAlreadyShutdown : Int := 274
def errorEasNotSupported : Int := 282
def errorPidMismatch : Int := 303
def errorInitRoutineFailed : Int := 295
def errorDirNotEmpty : Int := 395
def errorKbdFocusRequired : Int := 445
def errorInvalidAddress : Int := 487
def errorTimeout : Int := 640

def enoent : Int := 2
def enotdir : Int := 20
def einval : Int := 22

/-- `util.c`: an errno of libsmb as an API return code. -/
def maperror (rc : Int) : Int :=
  match rc with
  | 0 => noError
  | 1 => errorAccessDenied
  | 2 => errorFileNotFound
  | 3 => errorPidMismatch
  | 4 => errorInterrupt
  | 5 => errorReadFault
  | 6 => errorBadUnit
  | 7 => errorInvalidData
  | 8 => errorBadExeFormat
  | 9 => errorInvalidHandle
  | 10 => errorNoChildProcess
  | 11 => errorBusy
  | 12 => errorNotEnoughMemory
  | 13 => errorAccessDenied
  | 14 => errorInvalidAddress
  | 15 => errorNotLocked
  | 16 => errorBusy
  | 17 => errorFileExists
  | 18 => errorNotSameDevice
  | 19 => errorRemNotList
  | 20 => errorPathNotFound
  | 21 => errorDirectory
  | 22 => errorInvalidParameter
  | 23 => errorTooManyOpenFiles
  | 24 => errorTooManyOpens
  | 25 => errorModNotFound
  | 26 => errorLockViolation
  | 27 => errorTransferTooLong
  | 28 => errorDiskFull
  | 29 => errorSeek
  | 30 => errorWriteProtect
  | 31 => errorTooManyOpenFiles
  | 32 => errorBrokenPipe
  | 33 => errorInvalidLevel
  | 34 => errorFilenameExcedRange
  | 35 => errorDirNotEmpty
  | 36 => errorBusyDrive
  | 37 => errorInvalidFunction
  | 38 => errorFilenameExcedRange
  | 39 => errorKbdFocusRequired
  | 40 => errorTransferTooLong
  | 48 => errorNetworkBusy
  | 49 => errorInfoNotAvail
  | 50 => errorNetworkAccessDenied
  | 51 => errorNetworkAccessDenied
  | 52 => errorNetworkAccessDenied
  | 53 => errorNetworkAccessDenied
  | 54 => errorNetworkAccessDenied
  | 55 => errorBufferOverflow
  | 56 => errorPipeBusy
  | 57 => errorRemNotList
  | 58 => errorAlreadyShutdown
  | 60 => errorTimeout
  | 61 => errorNetworkAccessDenied
  | 63 => errorInvalidBlock
  | 64 => errorBadFormat
  | 65 => errorBadNetpath
  | 66 => errorBusyDrive
  | rc => rc + 40000

/-! NTSTATUS values that the listing code distinguishes. -/

def ntStatusOk : UInt32 := 0
def ntStatusWait1 : UInt32 := 0x00000001
def statusNoMoreFiles : UInt32 := 0x80000006
def ntStatusInvalidParameter : UInt32 := 0xC000000D
def ntStatusNoSuchFile : UInt32 := 0xC000000F
def ntStatusNoMemory : UInt32 := 0xC0000017

end NdpSmb
