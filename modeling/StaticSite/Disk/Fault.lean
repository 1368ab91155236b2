import StaticSite.Text.Basic

/-! Why a file cannot be read. A path that nobody has looked at yet is a fault of its own. -/

namespace StaticSite

inductive FileFault where
  | missing
  | notDirectory
  | isDirectory
  | nameTooLong
  | tooManyLinks
  | zeroInName
  | notText
  | other (message : Text)
  | unseen (path : Text)
  deriving DecidableEq

namespace FileFault

def message : FileFault → Text
  | missing => "No such file or directory (os error 2)"
  | notDirectory => "Not a directory (os error 20)"
  | isDirectory => "Is a directory (os error 21)"
  | nameTooLong => "File name too long (os error 36)"
  | tooManyLinks => "Too many levels of symbolic links (os error 40)"
  | zeroInName => "file name contained an unexpected NUL byte"
  | notText => "stream did not contain valid UTF-8"
  | other message => message
  | unseen path => path ++ " has not been looked at"

end FileFault

end StaticSite
