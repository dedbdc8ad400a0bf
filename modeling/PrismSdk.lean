import PrismSdk.Camera.GoodCamera
import PrismSdk.Camera.Interleaving
import PrismSdk.Camera.Completion
import PrismSdk.Camera.Storage
import PrismSdk.Camera.Results
import PrismSdk.Camera.Twins
import PrismSdk.Camera.Expiry
import PrismSdk.Camera.Diagnostics
import PrismSdk.ProfileVideo.ImageStorage
import PrismSdk.ProfileVideo.Crc32
import PrismSdk.ProfileVideo.HeaderErrors
import PrismSdk.ProfileVideo.PayloadErrors
import PrismSdk.ProfileVideo.Extension
import PrismSdk.ProfileVideo.Raw12Images
import PrismSdk.ProfileVideo.Raw12Safety
import PrismSdk.ProfileVideo.Raw12Block
import PrismSdk.Gnss.Raw
import PrismSdk.Gnss.PositionReader
import PrismSdk.Gnss.LatestWord
import PrismSdk.Gnss.Sessions
import PrismSdk.Gnss.Repeats
import PrismSdk.Gnss.Segments
import PrismSdk.Gnss.Corruption
import PrismSdk.Gnss.UsedSatellites
import PrismSdk.Lidar.PointTimes
import PrismSdk.Lidar.StoredPoints
import PrismSdk.CameraControl
import PrismSdk.Gnss.Transcript
import PrismSdk.Gnss.Independence
import PrismSdk.Capture.Exit
import PrismSdk.Capture.Stops
import PrismSdk.Gnss.Control
import PrismSdk.Lidar.Commands
import PrismSdk.Lidar.Capture
import PrismSdk.ProfileVideo.Delivery
