import TianJi.Model.BootTable
import TianJi.Model.KeyLoop
import TianJi.Lib.Canvas
import TianJi.Model.Screen
import TianJi.Lib.Bytes
import TianJi.Lib.Ledger
import TianJi.Model.Bmp
import TianJi.Lib.Raster
import TianJi.Model.BmpReader
import TianJi.Model.BmpSupportLib
import TianJi.Model.BmpAgree
import TianJi.Model.BmpEncoder
import TianJi.Model.Screenshot
import TianJi.Lib.CString
import TianJi.Model.OcUnicodeLib
import TianJi.Model.DevicePath
import TianJi.Model.OcFile
import TianJi.Model.OpenCore
import TianJi.Model.UefiMain
import TianJi.Lib.Unsigned
import TianJi.Model.IconRow
import TianJi.Model.Placement
import TianJi.Model.BootMenu
import TianJi.Model.Launcher
import TianJi.Model.Enter
import TianJi.Model.BmpRoundTrip
import TianJi.Lib.Numeral
import TianJi.Model.PrintLib
import TianJi.Lib.Joined
import TianJi.Model.DevicePathMemory
import TianJi.Model.LoaderPath
import TianJi.Model.SPrint
import TianJi.Model.SPrintText
import TianJi.Lib.Codes
import TianJi.Lib.Listing
import TianJi.Lib.Service
import TianJi.Model.DevicePathInstances
import TianJi.Model.LoadOption
import TianJi.Model.OptionRuns
import TianJi.Model.Background
import TianJi.Model.BmpDecoder
import TianJi.Model.OptionRefresh
import TianJi.Model.BmpViewer
import TianJi.Model.BootAttempt
import TianJi.Model.ConsoleVariable
import TianJi.Lib.Numbering
import TianJi.Model.BootDescription
import TianJi.Lib.Sequence
import TianJi.Model.Hotkey
